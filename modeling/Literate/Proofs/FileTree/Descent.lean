import Literate.Proofs.Path.Leaf

/-! Going down a tree by names. What a walk along a clean path comes to depends only on the
directories, files and free places that the path passes. -/

namespace Literate.FileTree

open Literate.Path

/-- Two trees hold the same, whatever the order that they list it in. -/
structure Same (t u : FileTree) : Prop where
  current : u.current = t.current
  entries : ∀ q, u.get? q = t.get? q

namespace Same

variable {t u v : FileTree}

theorem refl (t : FileTree) : Same t t := ⟨rfl, fun _ => rfl⟩

theorem symm (h : Same t u) : Same u t := ⟨h.current.symm, fun q => (h.entries q).symm⟩

theorem trans (h : Same t u) (h' : Same u v) : Same t v :=
  ⟨h'.current.trans h.current, fun q => (h'.entries q).trans (h.entries q)⟩

end Same

variable {t u : FileTree} {place q : List Text}

section Entries

theorem lookup_filter_ne (entries : List (List Text × FileNode)) (h : q ≠ place) :
    (entries.filter fun e => e.1 != place).lookup q = entries.lookup q := by
  induction entries with
  | nil => rfl
  | cons e entries ih =>
    obtain ⟨p, node⟩ := e
    by_cases hp : p = place
    · have hq : (q == p) = false := by simpa [hp] using h
      rw [List.filter_cons_of_neg (by simpa using hp), List.lookup_cons, hq, ih]
    · rw [List.filter_cons_of_pos (by simpa using hp), List.lookup_cons, List.lookup_cons, ih]

theorem lookup_filter_self (entries : List (List Text × FileNode)) :
    (entries.filter fun e => e.1 != place).lookup place = none := by
  rw [List.lookup_eq_none_iff]
  intro e he
  have hne : e.1 ≠ place := by simpa using (List.mem_filter.mp he).2
  simpa using hne.symm

theorem get?_set (hp : place ≠ []) (node : FileNode) :
    (t.set place node).get? q = if q = place then some node else t.get? q := by
  unfold get? set
  by_cases hq : q = place
  · subst hq
    simp [hp, List.lookup_append, lookup_filter_self]
  · have hlast : [(place, node)].lookup q = none := by
      have hq' : (q == place) = false := by simpa using hq
      simp [List.lookup_cons, hq']
    simp [hq, List.lookup_append, lookup_filter_ne _ hq, hlast]

theorem set_set (place : List Text) (a b : FileNode) : (t.set place a).set place b = t.set place b := by
  simp [set, List.filter_append]

theorem erase_set (place : List Text) (node : FileNode) : (t.set place node).erase place = t.erase place := by
  simp [set, erase, List.filter_append]

theorem get?_erase (hp : place ≠ []) :
    (t.erase place).get? q = if q = place then none else t.get? q := by
  unfold get? erase
  by_cases hq : q = place
  · subst hq
    simp [hp, lookup_filter_self]
  · simp [hq, lookup_filter_ne _ hq]

theorem same_erase (hp : place ≠ []) (hfree : t.get? place = none) : Same t (t.erase place) := by
  refine ⟨rfl, fun q => ?_⟩
  rw [get?_erase hp]
  split
  next h => rw [h, hfree]
  · rfl

end Entries

section Walk

variable {dirs rest : List Text} {name : Text}

/-- All names are within the limit. -/
def Short (names : List Text) : Prop := ∀ name ∈ names, name.length ≤ nameLimit

/-- What holds of each place that names lead to. -/
def Along (t : FileTree) (P : Option FileNode → Prop) (start names : List Text) : Prop :=
  ∀ ps, ps ≠ [] → ps <+: names → P (t.get? (start ++ ps))

/-- Each name leads to a directory. -/
def Paved (t : FileTree) (start names : List Text) : Prop :=
  t.Along (· = some .directory) start names

/-- No name leads to a file. -/
def Clear (t : FileTree) (start names : List Text) : Prop :=
  t.Along (fun node => ∀ bytes, node ≠ some (.file bytes)) start names

theorem walk_steers {parts : List Text} (h : ∀ part ∈ parts, Steers part) :
    t.walk (.found place .directory) (parts ++ rest) =
      t.walk (.found (parts.foldl climb place) .directory) rest := by
  induction parts generalizing place with
  | nil => rfl
  | cons part parts ih =>
    have hrest := fun p hp => h p (List.mem_cons_of_mem part hp)
    rw [List.cons_append, walk, List.foldl_cons, climb]
    by_cases hstay : part = [] ∨ part = ("." : Text)
    · rw [if_pos hstay, if_pos hstay, ih hrest]
    · have hup : part = (".." : Text) := by
        rcases h part (by simp) with h | h | h
        · exact absurd (.inl h) hstay
        · exact absurd (.inr h) hstay
        · exact h
      rw [if_neg hstay, if_neg hstay, if_pos hup, if_pos hup, ih hrest]

theorem walk_name (hn : IsName name) :
    t.walk (.found place .directory) (name :: rest) =
      if name.length > nameLimit then .error .nameTooLong
      else match t.get? (place ++ [name]) with
        | some node => t.walk (.found (place ++ [name]) node) rest
        | none => t.walk (.free (place ++ [name])) rest := by
  have hstay : ¬(name = [] ∨ name = ("." : Text)) := by simp [hn.ne_nil, hn.ne_dot]
  exact (if_neg hstay).trans (if_neg hn.ne_climb)

section Along

variable {P : Option FileNode → Prop}

theorem along_nil (t : FileTree) (P : Option FileNode → Prop) (place : List Text) :
    t.Along P place [] := by
  intro ps hne hps
  exact absurd (List.prefix_nil.1 hps) hne

theorem along_cons : t.Along P place (name :: dirs) ↔
    P (t.get? (place ++ [name])) ∧ t.Along P (place ++ [name]) dirs := by
  constructor
  · intro h
    refine ⟨h [name] (by simp) ⟨dirs, rfl⟩, fun ps _ hps => ?_⟩
    rw [List.append_assoc, List.singleton_append]
    exact h _ (by simp) ((List.prefix_cons_inj name).2 hps)
  · rintro ⟨hname, h⟩ ps hne hps
    obtain ⟨p, ps, rfl⟩ := List.exists_cons_of_ne_nil hne
    obtain ⟨rfl, htail⟩ := List.cons_prefix_cons.1 hps
    by_cases hnil : ps = []
    · rwa [hnil]
    · simpa using h ps hnil htail

theorem along_concat : t.Along P place (dirs ++ [name]) ↔
    t.Along P place dirs ∧ P (t.get? (place ++ dirs ++ [name])) := by
  constructor
  · intro h
    refine ⟨fun ps hne hps => h ps hne (hps.trans (List.prefix_append _ _)), ?_⟩
    rw [List.append_assoc]
    exact h _ (by simp) List.prefix_rfl
  · rintro ⟨h, hlast⟩ ps hne hps
    obtain rfl | hps := List.prefix_concat_iff.1 hps
    · rwa [← List.append_assoc]
    · exact h ps hne hps

theorem along_congr
    (h : ∀ ps, ps <+: dirs → (P (u.get? (place ++ ps)) ↔ P (t.get? (place ++ ps)))) :
    u.Along P place dirs ↔ t.Along P place dirs :=
  forall₃_congr fun ps _ hps => h ps hps

theorem paved_concat : t.Paved place (dirs ++ [name]) ↔
    t.Paved place dirs ∧ t.get? (place ++ dirs ++ [name]) = some .directory :=
  along_concat

theorem clear_concat : t.Clear place (dirs ++ [name]) ↔
    t.Clear place dirs ∧ ∀ bytes, t.get? (place ++ dirs ++ [name]) ≠ some (.file bytes) :=
  along_concat

end Along

theorem Paved.clear (h : t.Paved place dirs) : t.Clear place dirs := by
  intro ps hne hps bytes
  simp [h ps hne hps]

theorem short_concat : Short (dirs ++ [name]) ↔ Short dirs ∧ name.length ≤ nameLimit := by
  simp [Short, or_imp, forall_and]

theorem walk_paved (hn : ∀ d ∈ dirs, IsName d) (hs : Short dirs) (hp : t.Paved place dirs) :
    t.walk (.found place .directory) (dirs ++ rest) =
      t.walk (.found (place ++ dirs) .directory) rest := by
  induction dirs generalizing place with
  | nil => simp
  | cons d dirs ih =>
    obtain ⟨hd, hdirs⟩ := along_cons.1 hp
    have hlen : ¬d.length > nameLimit := Nat.not_lt.2 (hs d (by simp))
    rw [List.cons_append, walk_name (hn d (by simp)), if_neg hlen, hd]
    dsimp only
    rw [ih (fun p hp => hn p (by simp [hp])) (fun p hp => hs p (by simp [hp])) hdirs]
    simp

/-- Nothing goes on from a free place. -/
theorem walk_free_error {parts : List Text} (h : ∃ part ∈ parts, part ≠ []) :
    t.walk (.free place) parts = .error .noEntry := by
  obtain ⟨part, hpart, hne⟩ := h
  cases parts with
  | nil => cases hpart
  | cons next more =>
    have hfull : ¬(next = [] ∧ (more.all (· == [])) = true) := by
      rintro ⟨rfl, hall⟩
      rcases List.mem_cons.1 hpart with rfl | hmem
      · exact hne rfl
      · exact hne (by simpa using List.all_eq_true.1 hall part hmem)
    rw [walk, if_neg hfull]

theorem walk_file_error {parts : List Text} {bytes : Text} (h : ∃ part ∈ parts, part ≠ []) :
    t.walk (.found place (.file bytes)) parts = .error .notDirectory := by
  obtain ⟨part, hpart, -⟩ := h
  cases parts with
  | nil => cases hpart
  | cons next more => rfl

/-- A walk that cannot pass the directories is refused. It does not say that an entry is missing
unless one is missing, so otherwise there is a name too long or a file on the way. -/
theorem walk_blocked (hn : ∀ d ∈ dirs, IsName d) (hr : ∃ part ∈ rest, part ≠ [])
    (hblocked : ¬(Short dirs ∧ t.Paved place dirs)) :
    ∃ cause, t.walk (.found place .directory) (dirs ++ rest) = .error cause ∧
      (cause = .noEntry ∨ ¬(Short dirs ∧ t.Clear place dirs)) := by
  induction dirs generalizing place with
  | nil => exact absurd ⟨by simp [Short], along_nil t _ place⟩ hblocked
  | cons d dirs ih =>
    rw [List.cons_append, walk_name (hn d (by simp))]
    split
    next hlong =>
      refine ⟨_, rfl, .inr fun h => ?_⟩
      exact absurd (h.1 d (by simp)) (Nat.not_le.2 hlong)
    next hlen =>
      have hleft : ∃ part ∈ dirs ++ rest, part ≠ [] := by
        obtain ⟨part, hpart, hne⟩ := hr
        exact ⟨part, List.mem_append_right _ hpart, hne⟩
      cases hd : t.get? (place ++ [d]) with
      | none => exact ⟨.noEntry, walk_free_error hleft, .inl rfl⟩
      | some node =>
        cases node with
        | file bytes =>
          refine ⟨.notDirectory, walk_file_error hleft, .inr fun h => ?_⟩
          exact h.2 [d] (by simp) ⟨dirs, rfl⟩ bytes hd
        | directory =>
          have hb : ¬(Short dirs ∧ t.Paved (place ++ [d]) dirs) := by
            rintro ⟨hs, hp⟩
            refine hblocked ⟨fun p hp => ?_, along_cons.2 ⟨hd, hp⟩⟩
            rcases List.mem_cons.1 hp with rfl | hp
            · exact Nat.not_lt.1 hlen
            · exact hs p hp
          obtain ⟨cause, hwalk, hcause⟩ := ih (fun p hp => hn p (by simp [hp])) hb
          refine ⟨cause, hwalk, hcause.imp_right fun hnot h => hnot ⟨?_, (along_cons.1 h.2).2⟩⟩
          exact fun p hp => h.1 p (by simp [hp])

end Walk

section Resolve

/-- A path that the file system takes at all. -/
structure Passable (path : Text) : Prop where
  no_zero : 0 ∉ path
  ne_nil : path ≠ []
  length_le : path.length ≤ pathLimit

theorem Passable.of_prefix {path short : Text} (h : Passable path) (hp : short <+: path)
    (hne : short ≠ []) : Passable short :=
  ⟨fun hmem => h.no_zero (hp.subset hmem), hne, hp.length_le.trans h.length_le⟩

theorem resolve_passable {path : Text} (h : Passable path) :
    t.resolve path = t.walk (.found (if isAbsolute path then [] else t.current) .directory)
      (Text.split slash path) := by
  rw [resolve, if_neg h.no_zero, if_neg h.ne_nil, if_neg (Nat.not_lt.2 h.length_le)]

/-- A path that is not taken is not called missing, whatever the tree. -/
theorem resolve_of_not_passable {path : Text} (hne : path ≠ []) (h : ¬Passable path) :
    ∃ cause, (∀ t : FileTree, t.resolve path = .error cause) ∧ cause ≠ .noEntry := by
  by_cases hzero : 0 ∈ path
  · exact ⟨.invalidArgument, by simp [resolve, hzero], by simp⟩
  · have hlong : path.length > pathLimit := by
      by_contra hlen
      exact h ⟨hzero, hne, Nat.not_lt.1 hlen⟩
    exact ⟨.nameTooLong, by simp [resolve, hzero, hne, hlong], by simp⟩

theorem resolve_bare {path : Text} (hb : Bare path) (h : Passable path) :
    t.resolve path = .ok (.found (spelled t.current path) .directory) := by
  rw [resolve_passable h, ← List.append_nil (Text.split slash path), walk_steers hb.steers]
  rfl

theorem steers_climbs (n : Nat) : ∀ part ∈ climbs n, Steers part :=
  fun _ hp => .inr (.inr (List.eq_of_mem_replicate hp))

theorem resolve_lane (rooted : Bool) (ups : Nat) {dirs : List Text} (last : Text)
    (hd : ∀ d ∈ dirs, IsName d) (hl : slash ∉ last)
    (h : Passable (root rooted ++ lane (climbs ups ++ dirs) ++ last)) :
    t.resolve (root rooted ++ lane (climbs ups ++ dirs) ++ last) =
      t.walk (.found (source rooted ups t.current) .directory) (dirs ++ [last]) := by
  have hparts : ∀ part ∈ climbs ups ++ dirs, part ≠ [] ∧ slash ∉ part := by
    intro part hp
    rcases List.mem_append.1 hp with hp | hp
    · rw [List.eq_of_mem_replicate hp]
      decide
    · exact ⟨(hd part hp).ne_nil, (hd part hp).no_slash⟩
  have hhead : last.head? ≠ some slash := fun hhead => hl (List.mem_of_head? hhead)
  rw [resolve_passable h, List.append_assoc, isAbsolute_root hparts hhead, split_root,
    split_lane fun p hp => (hparts p hp).2, Text.split_of_not_mem hl, walk_steers,
    List.append_assoc, walk_steers (steers_climbs ups)]
  · cases rooted <;> rfl
  · cases rooted <;> simp [Steers]

theorem resolve_leaf (l : Leaf) (h : Passable l.text) :
    t.resolve l.text = t.walk (.found (l.origin t.current) .directory) (l.dirs ++ [l.name]) :=
  resolve_lane l.rooted l.ups l.name l.dirs_isName l.name_isName.no_slash h

theorem passable_of_resolve {path : Text} {p : Place} (h : t.resolve path = .ok p) :
    Passable path := by
  unfold resolve at h
  split at h
  · cases h
  next hzero =>
    split at h
    · cases h
    next hne =>
      split at h
      · cases h
      next hlen => exact ⟨hzero, hne, Nat.not_lt.1 hlen⟩

theorem find_eq_ok {path : Text} {node : FileNode} :
    t.find path = .ok (q, node) ↔ t.resolve path = .ok (.found q node) := by
  unfold find
  split <;> simp_all

/-- A path is taken by the file system, and so are its names. -/
structure Fits (l : Leaf) : Prop where
  passable : Passable l.text
  short : Short (l.dirs ++ [l.name])

/-- A path that ends in a name leads to an entry exactly when directories lead to it. -/
theorem find_leaf (l : Leaf) {node : FileNode} :
    t.find l.text = .ok (q, node) ↔
      Fits l ∧ t.Paved (l.origin t.current) l.dirs ∧ q = l.parent t.current ++ [l.name] ∧
        t.get? q = some node := by
  rw [find_eq_ok]
  by_cases hpass : Passable l.text
  swap
  · exact ⟨fun h => absurd (passable_of_resolve h) hpass, fun h => absurd h.1.passable hpass⟩
  rw [resolve_leaf l hpass]
  by_cases hdirs : Short l.dirs ∧ t.Paved (l.origin t.current) l.dirs
  · rw [walk_paved l.dirs_isName hdirs.1 hdirs.2, walk_name l.name_isName, ← Leaf.parent]
    split
    next hlong =>
      refine ⟨by simp, fun h => absurd (short_concat.1 h.1.short).2 (Nat.not_le.2 hlong)⟩
    next hlen =>
      have hfits : Fits l := ⟨hpass, short_concat.2 ⟨hdirs.1, Nat.not_lt.1 hlen⟩⟩
      cases hget : t.get? (l.parent t.current ++ [l.name]) with
      | none =>
        simp only [walk, Except.ok.injEq, reduceCtorEq, false_iff]
        rintro ⟨-, -, rfl, h⟩
        rw [hget] at h
        cases h
      | some found =>
        simp only [walk, Except.ok.injEq, Place.found.injEq]
        constructor
        · rintro ⟨rfl, rfl⟩
          exact ⟨hfits, hdirs.2, rfl, hget⟩
        · rintro ⟨-, -, rfl, h⟩
          exact ⟨rfl, by simpa [hget] using h⟩
  · obtain ⟨cause, hwalk, -⟩ := walk_blocked l.dirs_isName
      l.exists_ne_nil hdirs
    rw [hwalk]
    refine ⟨by simp, fun h => absurd ⟨(short_concat.1 h.1.short).1, h.2.1⟩ hdirs⟩

end Resolve

end Literate.FileTree

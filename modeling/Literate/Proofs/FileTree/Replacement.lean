import Literate.Proofs.FileTree.Directories
import Literate.Proofs.Text.Decoding

/-! Replacing a file. A path that ends in a name can be written exactly when the names fit, no file
stands where a directory has to be and no directory where the file has to be. Then the file holds
the bytes afterwards; in any case nothing else is changed but free places above it, which may become
directories. -/

namespace Literate

theorem Text.ofNat_injective : Function.Injective Text.ofNat := by
  intro m n h
  have hdigits : Nat.toDigits 10 m = Nat.toDigits 10 n := by
    simpa [Text.ofNat] using congrArg Text.chars h
  have hvalue := congrArg (fun cs => Nat.ofDigitChars 10 cs 0) hdigits
  simpa [Nat.ofDigitChars_toDigits] using hvalue

namespace FileTree

open Literate.Path

section Temporary

variable (t : FileTree) (dir : List Text) (base : Text)

theorem temporaryName_injective : Function.Injective (temporaryName base) := by
  intro a b h
  simpa [temporaryName] using h

theorem temporaryName_ne (digits : Text) : temporaryName base digits ≠ base := by
  intro h
  have hlen := congrArg List.length h
  have hdot : (Text.ofString ".").length = 1 := by decide
  simp only [temporaryName, List.length_append, hdot] at hlen
  omega

/-- More numbers are tried than there are entries, so that a name is free. -/
theorem exists_freePlace : ∃ n, freePlace? dir base t =
      some (dir ++ [temporaryName base (Text.ofNat n)]) ∧
    t.get? (dir ++ [temporaryName base (Text.ofNat n)]) = none := by
  let candidate : Nat → List Text := fun n => dir ++ [temporaryName base (Text.ofNat n)]
  have hinj : Function.Injective candidate := by
    intro m n h
    have hname : temporaryName base (Text.ofNat m) = temporaryName base (Text.ofNat n) := by
      simpa [candidate] using h
    exact Text.ofNat_injective (temporaryName_injective base hname)
  have hsome : (freePlace? dir base t).isSome := by
    by_contra hnone
    rw [Option.not_isSome_iff_eq_none, freePlace?, List.find?_eq_none] at hnone
    have hsub : (Finset.range (t.entries.length + 1)).image candidate ⊆
        (t.entries.map Prod.fst).toFinset := by
      intro place hplace
      obtain ⟨n, hn, rfl⟩ := Finset.mem_image.1 hplace
      have htaken : (t.get? (candidate n)).isSome := by
        have h := hnone (candidate n) (List.mem_map.2 ⟨n, by simpa using hn, rfl⟩)
        simpa [Option.isSome_iff_ne_none] using h
      have hmem := mem_places htaken
      simpa [places, candidate] using hmem
    have hcard := Finset.card_le_card hsub
    rw [Finset.card_image_of_injective _ hinj, Finset.card_range] at hcard
    have hle := List.toFinset_card_le (t.entries.map Prod.fst)
    simp only [List.length_map] at hle
    omega
  obtain ⟨place, hplace⟩ := Option.isSome_iff_exists.1 hsome
  have hmem := List.mem_of_find?_eq_some hplace
  obtain ⟨n, -, rfl⟩ := List.mem_map.1 hmem
  exact ⟨n, hplace, by simpa using List.find?_some hplace⟩

end Temporary

/-- The name of a temporary file beside the path is within the limits. -/
structure Roomy (l : Leaf) : Prop where
  name : (temporaryName l.name temporaryMark).length + (temporaryDigits - temporaryMark.length) ≤
    nameLimit
  path : (temporaryPath l.text).length + (temporaryDigits - temporaryMark.length) ≤ pathLimit

/-- The place that a path names. -/
def placeOf (t : FileTree) (path : Text) : List Text := spelled t.current path

theorem placeOf_leaf (t : FileTree) (l : Leaf) :
    t.placeOf l.text = l.parent t.current ++ [l.name] :=
  l.spelled_text t.current

/-- The places that the directories of a path lead to are above the place of the path. -/
theorem way_above (t : FileTree) (l : Leaf) {ps : List Text} (hps : ps <+: l.dirs) :
    l.origin t.current ++ ps <+: t.placeOf l.text ∧ l.origin t.current ++ ps ≠ t.placeOf l.text := by
  rw [placeOf_leaf, Leaf.parent]
  constructor
  · rw [List.append_assoc]
    exact (List.prefix_append_right_inj _).2 (hps.trans (List.prefix_append _ _))
  · intro heq
    have hlen := congrArg List.length heq
    have hle := hps.length_le
    simp only [List.length_append, List.length_singleton] at hlen
    omega

/-- A file can be put at a path. -/
structure Writable (t : FileTree) (l : Leaf) : Prop where
  fits : Fits l
  roomy : Roomy l
  clear : t.Clear (l.origin t.current) l.dirs
  vacant : t.get? (t.placeOf l.text) ≠ some .directory

/-- One tree is the other with a file put at a path. -/
structure Placed (t u : FileTree) (l : Leaf) (bytes : Text) : Prop where
  current : u.current = t.current
  paved : u.Paved (l.origin t.current) l.dirs
  target : u.get? (t.placeOf l.text) = some (.file bytes)
  elsewhere : ∀ q, q ≠ t.placeOf l.text → u.get? q = t.get? q ∨
    t.get? q = none ∧ u.get? q = some .directory ∧ q <+: l.parent t.current

section Overwrite

variable {t : FileTree} (l : Leaf) {path bytes : Text}

theorem resolve_leaf_paved (hf : Fits l) (hp : t.Paved (l.origin t.current) l.dirs) :
    t.resolve l.text = .ok (match t.get? (t.placeOf l.text) with
      | some node => .found (t.placeOf l.text) node
      | none => .free (t.placeOf l.text)) := by
  obtain ⟨hs, hlen⟩ := short_concat.1 hf.short
  rw [resolve_leaf l hf.passable, walk_paved l.dirs_isName hs hp, walk_name l.name_isName,
    if_neg (Nat.not_lt.2 hlen), placeOf_leaf, Leaf.parent]
  cases t.get? (l.origin t.current ++ l.dirs ++ [l.name]) <;> rfl

/-- The part of a replacement that writes. -/
def overwrite (path bytes : Text) (t : FileTree) : Except ReplaceError Bool × FileTree :=
  match makeDirectories Refusal.none (directory path) t with
  | (.error e, t) => (.error ⟨"create dir", e⟩, t)
  | (.ok (), t) =>
    match temporaryPlace path t with
    | .error e => (.error ⟨"create temp", e⟩, t)
    | .ok place => withTemporary Refusal.none path bytes place t

theorem writeIfChanged_eq (path bytes : Text) (t : FileTree) :
    writeIfChanged path bytes t = match t.readFile path with
      | .ok held => if held = bytes then (.ok false, t) else overwrite path bytes t
      | .error e => if e.cause = .noEntry then overwrite path bytes t
        else (.error ⟨"read " ++ path, e⟩, t) := rfl

theorem temporaryPlace_error (h : ¬Roomy l) :
    ∃ e, ∀ t : FileTree, temporaryPlace l.text t = .error e := by
  simp only [temporaryPlace, l.base_text, if_neg l.name_isName.no_slash]
  split
  · exact ⟨_, fun _ => rfl⟩
  next hname =>
    split
    · exact ⟨_, fun _ => rfl⟩
    next hpath => exact absurd ⟨Nat.not_lt.1 hname, Nat.not_lt.1 hpath⟩ h

theorem temporaryPlace_ok (hf : Fits l) (hr : Roomy l) (hp : t.Paved (l.origin t.current) l.dirs) :
    ∃ n, temporaryPlace l.text t =
        .ok (l.parent t.current ++ [temporaryName l.name (Text.ofNat n)]) ∧
      t.get? (l.parent t.current ++ [temporaryName l.name (Text.ofNat n)]) = none := by
  obtain ⟨n, hfree, hnone⟩ := exists_freePlace t (l.parent t.current) l.name
  have hfind := find_directory l hf.passable (short_concat.1 hf.short).1 hp
  refine ⟨n, ?_, hnone⟩
  simp only [temporaryPlace, l.base_text, if_neg l.name_isName.no_slash,
    if_neg (Nat.not_lt.2 hr.name), if_neg (Nat.not_lt.2 hr.path), hfind, hfree]

theorem withTemporary_none (path bytes : Text) (place : List Text) (t : FileTree) :
    withTemporary Refusal.none path bytes place t =
      match moveFile place path (t.set place (.file bytes)) with
      | .ok u => (.ok true, u.erase place)
      | .error e => (.error ⟨"rename" ++ " " ++ path, e⟩, t.erase place) := by
  simp only [withTemporary, fillAndMove, Refusal.none, set_set]
  cases moveFile place path (t.set place (.file bytes)) with
  | ok u => rfl
  | error e => simp only [erase_set]

theorem paved_set {start names place : List Text} {node : FileNode} (hne : place ≠ [])
    (hfree : t.get? place = none) (hp : t.Paved start names) :
    (t.set place node).Paved start names := by
  intro ps hps hpre
  have hdir := hp ps hps hpre
  rw [get?_set hne, if_neg (fun he => by rw [he, hfree] at hdir; cases hdir), hdir]

/-- A file at the place of the path is all that has to be put there once the directories are. -/
theorem placed_of_get? {u : FileTree} (hp : t.Paved (l.origin t.current) l.dirs)
    (hcurrent : u.current = t.current)
    (hget : ∀ q, u.get? q = if q = t.placeOf l.text then some (.file bytes) else t.get? q) :
    Placed t u l bytes := by
  refine ⟨hcurrent, fun ps hne hps => ?_, by rw [hget, if_pos rfl], fun q hq => .inl ?_⟩
  · rw [hget, if_neg (way_above t l hps).2]
    exact hp ps hne hps
  · rw [hget, if_neg hq]

/-- A temporary file that is moved leaves nothing behind. -/
theorem get?_moved {place target : List Text} (hne : place ≠ []) (htarget : target ≠ [])
    (hapart : target ≠ place) (hfree : t.get? place = none) (q : List Text) :
    ((((t.set place (.file bytes)).erase place).set target (.file bytes)).erase place).get? q =
      if q = target then some (.file bytes) else t.get? q := by
  rw [get?_erase hne, get?_set htarget, get?_erase hne, get?_set hne]
  by_cases hq : q = place
  · rw [if_pos hq, if_neg (hq ▸ hapart.symm), hq, hfree]
  · simp only [if_neg hq]

/-- A temporary file beside the target takes its place unless the target is a directory. -/
theorem withTemporary_leaf (bytes : Text) (hf : Fits l) (hp : t.Paved (l.origin t.current) l.dirs)
    {digits : Text} (hfree : t.get? (l.parent t.current ++ [temporaryName l.name digits]) = none) :
    let place := l.parent t.current ++ [temporaryName l.name digits]
    (t.get? (t.placeOf l.text) ≠ some .directory ∧ ∃ u,
      withTemporary Refusal.none l.text bytes place t = (.ok true, u) ∧ Placed t u l bytes) ∨
    t.get? (t.placeOf l.text) = some .directory ∧ ∃ e,
      withTemporary Refusal.none l.text bytes place t = (.error e, t.erase place) := by
  intro place
  let filled := t.set place (.file bytes)
  let moved := ((filled.erase place).set (t.placeOf l.text) (.file bytes)).erase place
  have hne : place ≠ [] := by simp [place]
  have htne : t.placeOf l.text ≠ [] := by simp [placeOf_leaf]
  have hapart : t.placeOf l.text ≠ place := by
    rw [placeOf_leaf]
    intro h
    exact temporaryName_ne l.name digits (by simpa [place] using h.symm)
  have hheld : filled.get? place = some (.file bytes) := by rw [get?_set hne, if_pos rfl]
  have hres : filled.resolve l.text = .ok (match t.get? (t.placeOf l.text) with
      | some node => .found (t.placeOf l.text) node
      | none => .free (t.placeOf l.text)) := by
    have hpaved : filled.Paved (l.origin t.current) l.dirs := paved_set hne hfree hp
    have htarget : filled.get? (t.placeOf l.text) = t.get? (t.placeOf l.text) := by
      rw [get?_set hne, if_neg hapart]
    rw [← htarget]
    exact resolve_leaf_paved l hf hpaved
  have hdone : Placed t moved l bytes :=
    placed_of_get? l hp rfl (get?_moved hne htne hapart hfree)
  cases hget : t.get? (t.placeOf l.text) with
  | none =>
    rw [hget] at hres
    exact .inl ⟨by simp, moved,
      by simp only [withTemporary_none, moveFile, hheld, hres, filled, moved], hdone⟩
  | some node =>
    rw [hget] at hres
    cases node with
    | file old =>
      exact .inl ⟨by simp, moved,
        by simp only [withTemporary_none, moveFile, hheld, hres, filled, moved], hdone⟩
    | directory =>
      refine .inr ⟨rfl, ?_⟩
      simp only [withTemporary_none, moveFile, hheld, hres, filled]
      exact ⟨_, rfl⟩

variable {l} in
theorem Placed.of_grown {u v : FileTree} (hg : Grown t u (l.parent t.current))
    (h : Placed u v l bytes) : Placed t v l bytes := by
  obtain ⟨hcurrent, hpaved, htarget, helse⟩ := h
  rw [placeOf] at htarget helse
  rw [hg.current] at hcurrent hpaved htarget helse
  refine ⟨hcurrent, hpaved, htarget, fun q hq => ?_⟩
  rcases helse q hq with h | ⟨hnone, hdir, hpre⟩
  · rw [h]
    exact hg.entries q
  · rcases hg.entries q with h' | ⟨-, hdir', -⟩
    · exact .inr ⟨h' ▸ hnone, hdir, hpre⟩
    · rw [hdir'] at hnone
      cases hnone

/-- A file is put at a path that one can be put at. Otherwise the directories of the path are all
that is made. -/
theorem overwrite_same (hpass : Passable l.text) (bytes : Text) :
    (t.Writable l ∧ ∃ u, overwrite l.text bytes t = (.ok true, u) ∧ Placed t u l bytes) ∨
    ¬t.Writable l ∧ ∃ e u, overwrite l.text bytes t = (.error e, u) ∧
      Same (makeDirectories Refusal.none (directory l.text) t).2 u := by
  have hpaving := paving_makeDirectories (t := t) l hpass
  unfold overwrite
  rcases hmade : makeDirectories Refusal.none (directory l.text) t with ⟨result, u⟩
  rw [hmade] at hpaving
  have hgrown : Grown t u (l.parent t.current) := hpaving.grown
  cases result with
  | error e =>
    refine .inr ⟨fun hw => ?_, _, u, rfl, .refl u⟩
    have hok := hpaving.ok_iff.2 ⟨(short_concat.1 hw.fits.short).1, hw.clear⟩
    cases hok
  | ok _ =>
    obtain ⟨hshort, hclear⟩ := hpaving.ok_iff.1 rfl
    have hpaved : u.Paved (l.origin u.current) l.dirs := by
      rw [hgrown.current]
      exact hpaving.paved rfl
    have hplaces : u.placeOf l.text = t.placeOf l.text := by rw [placeOf, hgrown.current, placeOf]
    have htarget : u.get? (t.placeOf l.text) = t.get? (t.placeOf l.text) := by
      rcases hgrown.entries (t.placeOf l.text) with h | ⟨-, -, hpre⟩
      · exact h
      · have hlen := hpre.length_le
        simp only [placeOf_leaf, List.length_append, List.length_singleton] at hlen
        omega
    dsimp only
    by_cases hroomy : Roomy l
    swap
    · obtain ⟨e, he⟩ := temporaryPlace_error l hroomy
      rw [he]
      exact .inr ⟨fun hw => hroomy hw.roomy, _, u, rfl, .refl u⟩
    have hname : l.name.length ≤ nameLimit := by
      have hroom := hroomy.name
      simp only [temporaryName, List.length_append] at hroom
      omega
    have hfits : Fits l := ⟨hpass, short_concat.2 ⟨hshort, hname⟩⟩
    obtain ⟨n, hplace, hfree⟩ := temporaryPlace_ok l hfits hroomy hpaved
    rw [hplace]
    dsimp only
    rcases withTemporary_leaf l bytes hfits hpaved hfree with
      ⟨hvacant, v, hv, hput⟩ | ⟨hdir, e, he⟩
    · rw [hplaces, htarget] at hvacant
      exact .inl ⟨⟨hfits, hroomy, hclear, hvacant⟩, v, hv, hput.of_grown hgrown⟩
    · rw [hplaces, htarget] at hdir
      exact .inr ⟨fun hw => hw.vacant hdir, e, _, he, same_erase (by simp) hfree⟩

theorem overwrite_leaf (hpass : Passable l.text) (bytes : Text) :
    (t.Writable l ∧ ∃ u, overwrite l.text bytes t = (.ok true, u) ∧ Placed t u l bytes) ∨
    ¬t.Writable l ∧ ∃ e u, overwrite l.text bytes t = (.error e, u) ∧
      Grown t u (l.parent t.current) :=
  (overwrite_same l hpass bytes).imp_right fun ⟨hw, e, u, hout, hsame⟩ =>
    ⟨hw, e, u, hout, (paving_makeDirectories l hpass).grown.same hsame⟩

end Overwrite

end FileTree

end Literate

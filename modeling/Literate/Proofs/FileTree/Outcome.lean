import Literate.Proofs.FileTree.Replacement

/-! What comes of a replacement, said without the words of its path: the file is as it was, or it
holds the bytes, or nothing was put there; and which of these holds is decided by the place that the
path names and the places above it. -/

namespace Literate.FileTree

open Literate.Path

/-- The form that joined paths have. -/
def IsJoined (path : Text) : Prop := path = [] ∨ Bare path ∨ ∃ l : Leaf, path = l.text

theorem isJoined_join (dir path : Text) : IsJoined (Path.join dir path) := join_cases dir path

variable {t u : FileTree} {path bytes : Text}

section Reading

theorem readFile_eq_ok : t.readFile path = .ok bytes ↔ ∃ q, t.find path = .ok (q, .file bytes) := by
  unfold readFile openEntry
  cases t.find path with
  | error cause => simp
  | ok entry =>
    obtain ⟨q, node⟩ := entry
    cases node <;> simp [contents]

theorem readFile_error {cause : FileCause} (h : t.resolve path = .error cause) :
    t.readFile path = .error ⟨"open", [path], cause⟩ := by
  simp [readFile, openEntry, find, h]

theorem readFile_leaf (l : Leaf) : t.readFile l.text = .ok bytes ↔
    Fits l ∧ t.Paved (l.origin t.current) l.dirs ∧
      t.get? (t.placeOf l.text) = some (.file bytes) := by
  simp only [readFile_eq_ok, find_leaf, placeOf_leaf]
  constructor
  · rintro ⟨q, hfits, hpaved, rfl, hget⟩
    exact ⟨hfits, hpaved, hget⟩
  · rintro ⟨hfits, hpaved, hget⟩
    exact ⟨_, hfits, hpaved, rfl, hget⟩

/-- A bare path is there as a directory, or it is not taken at all. -/
theorem readFile_bare (hb : Bare path) :
    ∃ e, (∀ t : FileTree, t.readFile path = .error e) ∧ e.cause ≠ .noEntry := by
  by_cases hpass : Passable path
  · refine ⟨⟨"read", [path], .isDirectory⟩, fun t => ?_, by simp⟩
    simp [readFile, openEntry, find_eq_ok.2 (resolve_bare (t := t) hb hpass), contents]
  · obtain ⟨cause, hres, hcause⟩ := resolve_of_not_passable hb.ne_nil hpass
    exact ⟨_, fun t => readFile_error (hres t), hcause⟩

theorem readFile_nil : t.readFile [] = .error ⟨"open", [[]], .noEntry⟩ := by
  simp [readFile, openEntry, find, resolve]

/-- Where a file can be put, one is read or none is there. -/
theorem Writable.readFile {l : Leaf} (h : t.Writable l) :
    (∃ held, t.readFile l.text = .ok held) ∨
      ∃ e, t.readFile l.text = .error e ∧ e.cause = .noEntry := by
  by_cases hp : t.Paved (l.origin t.current) l.dirs
  · have hres := resolve_leaf_paved l h.fits hp
    cases hget : t.get? (t.placeOf l.text) with
    | none =>
      rw [hget] at hres
      refine .inr ⟨⟨"open", [l.text], .noEntry⟩, ?_, rfl⟩
      simp [FileTree.readFile, openEntry, find, hres]
    | some node =>
      cases node with
      | directory => exact absurd hget h.vacant
      | file held => exact .inl ⟨held, (readFile_leaf l).2 ⟨h.fits, hp, hget⟩⟩
  · obtain ⟨cause, hwalk, hcause⟩ :=
      walk_blocked l.dirs_isName l.exists_ne_nil fun hall => hp hall.2
    refine .inr ⟨_, readFile_error (by rw [resolve_leaf l h.fits.passable, hwalk]), ?_⟩
    exact hcause.resolve_right fun hnot => hnot ⟨(short_concat.1 h.fits.short).1, h.clear⟩

theorem passable_of_noEntry (l : Leaf) {e : FileError} (h : t.readFile l.text = .error e)
    (he : e.cause = .noEntry) : Passable l.text := by
  by_contra hpass
  obtain ⟨cause, hres, hcause⟩ := resolve_of_not_passable l.text_ne_nil hpass
  rw [readFile_error (hres t)] at h
  cases h
  exact hcause he

end Reading

theorem writeIfChanged_leaf (l : Leaf) (bytes : Text) :
    (t.readFile l.text = .ok bytes ∧ writeIfChanged l.text bytes t = (.ok false, t)) ∨
    t.readFile l.text ≠ .ok bytes ∧
      ((t.Writable l ∧ ∃ u, writeIfChanged l.text bytes t = (.ok true, u) ∧ Placed t u l bytes) ∨
      ¬t.Writable l ∧ ∃ e u, writeIfChanged l.text bytes t = (.error e, u) ∧
        Grown t u (l.parent t.current)) := by
  rw [writeIfChanged_eq]
  cases hread : t.readFile l.text with
  | ok held =>
    by_cases hheld : held = bytes
    · exact .inl ⟨by rw [hheld], if_pos hheld⟩
    · refine .inr ⟨by simpa using hheld, ?_⟩
      simp only [if_neg hheld]
      exact overwrite_leaf l ((readFile_leaf l).1 hread).1.passable bytes
  | error e =>
    refine .inr ⟨by simp, ?_⟩
    by_cases hcause : e.cause = .noEntry
    · simp only [if_pos hcause]
      exact overwrite_leaf l (passable_of_noEntry l hread hcause) bytes
    · simp only [if_neg hcause]
      refine .inr ⟨fun hw => ?_, _, t, rfl, .refl t _⟩
      rcases hw.readFile with ⟨held, hok⟩ | ⟨e', herror, hcause'⟩
      · rw [hok] at hread
        cases hread
      · rw [herror] at hread
        cases hread
        exact hcause hcause'

theorem writeIfChanged_bare (hb : Bare path) (bytes : Text) :
    ∃ e, ∀ t : FileTree, writeIfChanged path bytes t = (.error e, t) := by
  obtain ⟨e, hread, hcause⟩ := readFile_bare hb
  refine ⟨⟨"read " ++ path, e⟩, fun t => ?_⟩
  rw [writeIfChanged_eq, hread]
  exact if_neg hcause

/-- No file can be put at the empty path; only the temporary file comes and goes. -/
theorem writeIfChanged_nil (bytes : Text) : ∃ e, ∀ t : FileTree, ∃ u,
    writeIfChanged [] bytes t = (.error e, u) ∧ Same t u := by
  refine ⟨⟨"rename ", ⟨"rename", [temporaryPath [], []], .noEntry⟩⟩, fun t => ?_⟩
  have hfind : t.find (directory []) = .ok (t.current, .directory) := by
    rw [find_eq_ok]
    rfl
  obtain ⟨place, hne, hfree, hnone⟩ : ∃ place ≠ [],
      freePlace? t.current "." t = some place ∧ t.get? place = none := by
    obtain ⟨n, hn⟩ := exists_freePlace t t.current "."
    exact ⟨_, by simp, hn⟩
  have hplace : temporaryPlace [] t = .ok place := by
    have hbase : base [] = "." := rfl
    unfold temporaryPlace
    rw [hbase, if_neg (by decide), if_neg (by decide), if_neg (by decide), hfind]
    simp only [hfree]
  have hheld : (t.set place (.file bytes)).get? place = some (.file bytes) := by
    rw [get?_set hne, if_pos rfl]
  have hmove : moveFile place [] (t.set place (.file bytes)) =
      .error ⟨"rename", [temporaryPath [], []], .noEntry⟩ := by
    simp only [moveFile, hheld]
    rfl
  have hout : writeIfChanged [] bytes t =
      (.error ⟨"rename ", ⟨"rename", [temporaryPath [], []], .noEntry⟩⟩, t.erase place) := by
    simp only [writeIfChanged_eq, readFile_nil, if_true, overwrite, makeDirectories, hfind, hplace,
      withTemporary_none, hmove]
    rfl
  exact ⟨t.erase place, hout, same_erase hne hnone⟩

/-- Only a place and directories above it differ. -/
structure Spares (t u : FileTree) (place : List Text) : Prop where
  current : u.current = t.current
  elsewhere : ∀ q, q ≠ place → u.get? q = t.get? q ∨
    t.get? q = none ∧ u.get? q = some .directory ∧ q <+: place

/-- What a replacement comes to. -/
inductive Outcome (t : FileTree) (path bytes : Text) :
    Except ReplaceError Bool × FileTree → Prop where
  | kept (held : t.readFile path = .ok bytes) : Outcome t path bytes (.ok false, t)
  | written {u : FileTree} (differed : t.readFile path ≠ .ok bytes)
      (vacant : t.get? (t.placeOf path) ≠ some .directory) (holds : u.readFile path = .ok bytes)
      (spares : Spares t u (t.placeOf path)) : Outcome t path bytes (.ok true, u)
  | refused {e : ReplaceError} {u : FileTree} (differed : t.readFile path ≠ .ok bytes)
      (same : u.get? (t.placeOf path) = t.get? (t.placeOf path))
      (spares : Spares t u (t.placeOf path)) : Outcome t path bytes (.error e, u)

theorem outcome_writeIfChanged (h : IsJoined path) (bytes : Text) :
    Outcome t path bytes (writeIfChanged path bytes t) := by
  rcases h with rfl | hbare | ⟨l, rfl⟩
  · obtain ⟨e, hnil⟩ := writeIfChanged_nil bytes
    obtain ⟨u, hout, hcurrent, hsame⟩ := hnil t
    rw [hout]
    exact .refused (by simp [readFile_nil]) (hsame _) ⟨hcurrent, fun q _ => .inl (hsame q)⟩
  · obtain ⟨e, hout⟩ := writeIfChanged_bare hbare bytes
    obtain ⟨e', hread, -⟩ := readFile_bare hbare
    rw [hout]
    exact .refused (by simp [hread]) rfl ⟨rfl, fun q _ => .inl rfl⟩
  · have habove : l.parent t.current <+: t.placeOf l.text := by
      rw [placeOf_leaf]
      exact List.prefix_append _ _
    rcases writeIfChanged_leaf (t := t) l bytes with
      ⟨hread, hout⟩ | ⟨hread, ⟨hw, u, hout, hput⟩ | ⟨-, e, u, hout, hgrown⟩⟩
    · rw [hout]
      exact .kept hread
    · rw [hout]
      refine .written hread hw.vacant ?_ ⟨hput.current, fun q hq => ?_⟩
      · refine (readFile_leaf l).2 ⟨hw.fits, hput.current ▸ hput.paved, ?_⟩
        rw [placeOf, hput.current]
        exact hput.target
      · exact (hput.elsewhere q hq).imp_right fun h => ⟨h.1, h.2.1, h.2.2.trans habove⟩
    · rw [hout]
      refine .refused hread ?_ ⟨hgrown.current, fun q _ => ?_⟩
      · rcases hgrown.entries (t.placeOf l.text) with h | ⟨-, -, hpre⟩
        · exact h
        · have hlen := hpre.length_le
          simp only [placeOf_leaf, List.length_append, List.length_singleton] at hlen
          omega
      · exact (hgrown.entries q).imp_right fun h => ⟨h.1, h.2.1, h.2.2.trans habove⟩

/-- What is read at a path is the file at its place. -/
theorem get?_of_readFile (h : IsJoined path) (hread : t.readFile path = .ok bytes) :
    t.get? (t.placeOf path) = some (.file bytes) := by
  rcases h with rfl | hbare | ⟨l, rfl⟩
  · rw [readFile_nil] at hread
    cases hread
  · obtain ⟨e, herror, -⟩ := readFile_bare hbare
    rw [herror] at hread
    cases hread
  · exact ((readFile_leaf l).1 hread).2.2

/-- A file stays readable as long as directories stay directories. -/
theorem readFile_of_directories (h : IsJoined path) (hread : t.readFile path = .ok bytes)
    (hcurrent : u.current = t.current)
    (hdirs : ∀ q, t.get? q = some .directory → u.get? q = some .directory) {bytes' : Text}
    (hget : u.get? (t.placeOf path) = some (.file bytes')) : u.readFile path = .ok bytes' := by
  rcases h with rfl | hbare | ⟨l, rfl⟩
  · rw [readFile_nil] at hread
    cases hread
  · obtain ⟨e, herror, -⟩ := readFile_bare hbare
    rw [herror] at hread
    cases hread
  · obtain ⟨hfits, hpaved, -⟩ := (readFile_leaf l).1 hread
    refine (readFile_leaf l).2 ⟨hfits, ?_, by rwa [placeOf, hcurrent]⟩
    rw [hcurrent]
    exact fun ps hne hps => hdirs _ (hpaved ps hne hps)

section Alike

/-- Two trees in which a place and what is above it look the same, but for directories that are
there in the second and free in the first. Where something is at the place, they are there in both. -/
structure Alike (t u : FileTree) (place : List Text) : Prop where
  current : u.current = t.current
  target : u.get? place = t.get? place
  above : ∀ q, q <+: place → q ≠ place → u.get? q = t.get? q ∨
    t.get? q = none ∧ u.get? q = some .directory
  grounded : t.get? place ≠ none → ∀ q, q <+: place → q ≠ place → u.get? q = t.get? q

theorem Alike.of_eq {place : List Text} (hcurrent : u.current = t.current)
    (h : ∀ q, q <+: place → u.get? q = t.get? q) : Alike t u place :=
  ⟨hcurrent, h place List.prefix_rfl, fun q hq _ => .inl (h q hq), fun _ q hq _ => h q hq⟩

/-- Every entry is in a directory. -/
def Closed (t : FileTree) : Prop :=
  ∀ place part, t.get? (place ++ [part]) ≠ none → t.get? place = some .directory

theorem closed_of_entries (h : ∀ e ∈ t.entries, t.get? e.1.dropLast = some .directory) :
    t.Closed := by
  intro place part hsome
  have hmem := mem_places (Option.isSome_iff_ne_none.2 hsome)
  obtain ⟨e, he, hplace⟩ : ∃ e ∈ t.entries, e.1 = place ++ [part] := by
    simpa [places] using hmem
  have hdir := h e he
  rwa [hplace, List.dropLast_concat] at hdir

theorem Closed.above (h : t.Closed) {p q : List Text} (hq : q <+: p) (hne : q ≠ p)
    (hp : t.get? p ≠ none) : t.get? q = some .directory := by
  induction p using List.reverseRecOn with
  | nil => exact absurd (List.prefix_nil.1 hq) hne
  | append_singleton p part ih =>
    have hdir := h p part hp
    obtain heq | hq := List.prefix_concat_iff.1 hq
    · exact absurd heq hne
    · by_cases heq : q = p
      · rwa [heq]
      · exact ih hq heq (by simp [hdir])

theorem Closed.free_below (h : t.Closed) {p q : List Text} (hq : q <+: p) (hfree : t.get? q = none) :
    t.get? p = none := by
  by_contra hsome
  by_cases hne : q = p
  · exact hsome (hne ▸ hfree)
  · rw [h.above hq hne hsome] at hfree
    cases hfree

namespace Alike

variable {l : Leaf} (h : Alike t u (t.placeOf l.text))
include h

theorem placeOf_eq : u.placeOf l.text = t.placeOf l.text := by rw [placeOf, h.current, placeOf]

theorem readFile_iff (bytes : Text) :
    u.readFile l.text = .ok bytes ↔ t.readFile l.text = .ok bytes := by
  rw [readFile_leaf, readFile_leaf, h.placeOf_eq, h.target, h.current]
  have hpaved : t.get? (t.placeOf l.text) = some (.file bytes) →
      (u.Paved (l.origin t.current) l.dirs ↔ t.Paved (l.origin t.current) l.dirs) := by
    refine fun hget => along_congr fun ps hps => ?_
    obtain ⟨hpre, hne⟩ := way_above t l hps
    rw [h.grounded (by simp [hget]) _ hpre hne]
  constructor
  · rintro ⟨hfits, hu, hget⟩
    exact ⟨hfits, (hpaved hget).1 hu, hget⟩
  · rintro ⟨hfits, ht, hget⟩
    exact ⟨hfits, (hpaved hget).2 ht, hget⟩

theorem clear_iff {dirs : List Text} (hdirs : dirs <+: l.dirs) :
    u.Clear (l.origin t.current) dirs ↔ t.Clear (l.origin t.current) dirs := by
  refine along_congr fun ps hps => ?_
  obtain ⟨hpre, hne⟩ := way_above t l (hps.trans hdirs)
  rcases h.above _ hpre hne with hsame | ⟨hnone, hdir⟩
  · rw [hsame]
  · simp [hnone, hdir]

theorem writable_iff : u.Writable l ↔ t.Writable l := by
  have hclear := h.clear_iff List.prefix_rfl
  constructor
  · rintro ⟨hfits, hroomy, hu, hvacant⟩
    rw [h.placeOf_eq, h.target] at hvacant
    rw [h.current] at hu
    exact ⟨hfits, hroomy, hclear.1 hu, hvacant⟩
  · rintro ⟨hfits, hroomy, ht, hvacant⟩
    refine ⟨hfits, hroomy, ?_, by rwa [h.placeOf_eq, h.target]⟩
    rw [h.current]
    exact hclear.2 ht

end Alike

/-- Trees that look the same above a place come to the same outcome there. -/
theorem Alike.writeIfChanged (h : IsJoined path) (hu : Alike t u (t.placeOf path)) (bytes : Text) :
    (writeIfChanged path bytes u).1.toOption = (writeIfChanged path bytes t).1.toOption := by
  rcases h with rfl | hbare | ⟨l, rfl⟩
  · obtain ⟨e, hnil⟩ := writeIfChanged_nil bytes
    obtain ⟨v, hout, -⟩ := hnil t
    obtain ⟨v', hout', -⟩ := hnil u
    rw [hout, hout']
  · obtain ⟨e, hout⟩ := writeIfChanged_bare hbare bytes
    rw [hout, hout]
  · have hread := hu.readFile_iff bytes
    have hwrite := hu.writable_iff
    rcases writeIfChanged_leaf (t := t) l bytes with
      ⟨ht, hout⟩ | ⟨ht, ⟨hwt, v, hout, -⟩ | ⟨hwt, e, v, hout, -⟩⟩ <;>
    rcases writeIfChanged_leaf (t := u) l bytes with
      ⟨hr, hout'⟩ | ⟨hr, ⟨hwu, v', hout', -⟩ | ⟨hwu, e', v', hout', -⟩⟩ <;>
    simp_all [Except.toOption]

end Alike

end Literate.FileTree

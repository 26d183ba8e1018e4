import Literate.Proofs.FileTree.Exchange

/-! What a refusal says. If the names of a path are within the limit, then what is read there, and
how a replacement ends, is settled by the place of the path, by the files above it, and by the path
itself: directories on the way that are there already or are still to be made make no difference. -/

namespace Literate.FileTree

open Literate.Path

variable {t u : FileTree} {path : Text}

/-- The components of a path are within the limit. -/
def Fitting (path : Text) : Prop := Short (Text.split slash path)

instance decidableFitting (path : Text) : Decidable (Fitting path) :=
  inferInstanceAs (Decidable (∀ name ∈ Text.split slash path, name.length ≤ nameLimit))

theorem Fitting.short {l : Leaf} (h : Fitting l.text) : Short (l.dirs ++ [l.name]) := by
  intro name hname
  refine h name ?_
  rw [l.split_text, Leaf.parts]
  rcases List.mem_append.1 hname with hname | hname <;> simp_all

/-- Where there is a file on the way, it is what stops the walk: all above it are directories. -/
theorem walk_not_clear {place dirs rest : List Text} (ht : t.Closed) (hn : ∀ d ∈ dirs, IsName d)
    (hs : Short dirs) (hr : ∃ part ∈ rest, part ≠ []) (hc : ¬t.Clear place dirs) :
    t.walk (.found place .directory) (dirs ++ rest) = .error .notDirectory := by
  induction dirs generalizing place with
  | nil => exact absurd (along_nil t _ place) hc
  | cons d dirs ih =>
    have hlen : ¬d.length > nameLimit := Nat.not_lt.2 (hs d (by simp))
    rw [List.cons_append, walk_name (hn d (by simp)), if_neg hlen]
    cases hget : t.get? (place ++ [d]) with
    | none =>
      refine absurd (fun ps hne hps bytes hfile => ?_) hc
      obtain ⟨p, ps, rfl⟩ := List.exists_cons_of_ne_nil hne
      obtain ⟨rfl, -⟩ := List.cons_prefix_cons.1 hps
      rw [ht.free_below ⟨ps, by simp⟩ hget] at hfile
      cases hfile
    | some node =>
      cases node with
      | file bytes =>
        obtain ⟨part, hpart, hne⟩ := hr
        exact walk_file_error ⟨part, List.mem_append_right _ hpart, hne⟩
      | directory =>
        refine ih (fun d hd => hn d (by simp [hd])) (fun d hd => hs d (by simp [hd])) fun h => ?_
        exact hc (along_cons.2 ⟨by simp [hget], h⟩)

section Leaf

variable {l : Leaf}

theorem readFile_not_clear (ht : t.Closed) (hf : Fits l)
    (hc : ¬t.Clear (l.origin t.current) l.dirs) :
    t.readFile l.text = .error ⟨"open", [l.text], .notDirectory⟩ := by
  refine readFile_error ?_
  rw [resolve_leaf l hf.passable]
  exact walk_not_clear ht l.dirs_isName (short_concat.1 hf.short).1 l.exists_ne_nil hc

/-- A path to a free place is called missing, whether its directories are there or not. -/
theorem readFile_free (hf : Fits l) (hc : t.Clear (l.origin t.current) l.dirs)
    (hfree : t.get? (t.placeOf l.text) = none) :
    t.readFile l.text = .error ⟨"open", [l.text], .noEntry⟩ := by
  by_cases hp : t.Paved (l.origin t.current) l.dirs
  · have hres := resolve_leaf_paved l hf hp
    rw [hfree] at hres
    simp [readFile, openEntry, find, hres]
  · obtain ⟨cause, hwalk, hcause⟩ :=
      walk_blocked l.dirs_isName l.exists_ne_nil fun hall => hp hall.2
    have hmissing := hcause.resolve_right fun hnot => hnot ⟨(short_concat.1 hf.short).1, hc⟩
    rw [readFile_error (by rw [resolve_leaf l hf.passable, hwalk]), hmissing]

theorem readFile_held {node : FileNode} (ht : t.Closed) (hf : Fits l)
    (hget : t.get? (t.placeOf l.text) = some node) :
    t.readFile l.text = contents l.text node := by
  have hp : t.Paved (l.origin t.current) l.dirs := by
    intro ps hne hps
    obtain ⟨hpre, happart⟩ := way_above t l hps
    exact ht.above hpre happart (by simp [hget])
  have hres := resolve_leaf_paved l hf hp
  rw [hget] at hres
  simp [readFile, openEntry, find, hres]

/-- Where nothing is in the way, the outcome depends on the path only. -/
theorem overwrite_ready (hf : Fits l) (bytes : Text) : ∃ result, ∀ t : FileTree,
    t.Clear (l.origin t.current) l.dirs → t.get? (t.placeOf l.text) ≠ some .directory →
      (overwrite l.text bytes t).1 = result := by
  by_cases hroomy : Roomy l
  · refine ⟨.ok true, fun t hc hvacant => ?_⟩
    rcases overwrite_same (t := t) l hf.passable bytes with ⟨-, u, hu, -⟩ | ⟨hw, -⟩
    · rw [hu]
    · exact absurd ⟨hf, hroomy, hc, hvacant⟩ hw
  · obtain ⟨e, he⟩ := temporaryPlace_error l hroomy
    refine ⟨.error ⟨"create temp", e⟩, fun t hc _ => ?_⟩
    have hok := (paving_makeDirectories (t := t) l hf.passable).ok_iff.2
      ⟨(short_concat.1 hf.short).1, hc⟩
    unfold overwrite
    rcases hmade : makeDirectories Refusal.none (directory l.text) t with ⟨result, u⟩
    rw [hmade] at hok
    obtain rfl : result = .ok () := hok
    simp only [he]

theorem Alike.at_leaf (h : Alike t u (t.placeOf l.text)) :
    (u.Clear (l.origin u.current) l.dirs ↔ t.Clear (l.origin t.current) l.dirs) ∧
      u.get? (u.placeOf l.text) = t.get? (t.placeOf l.text) := by
  rw [h.placeOf_eq, h.current]
  exact ⟨h.clear_iff List.prefix_rfl, h.target⟩

end Leaf

section Alike

variable (ht : t.Closed) (hu : u.Closed) (hp : IsJoined path) (hf : Fitting path)
  (h : Alike t u (t.placeOf path))
include ht hu hp hf h

theorem Alike.readFile_eq : u.readFile path = t.readFile path := by
  rcases hp with rfl | hbare | ⟨l, rfl⟩
  · rw [readFile_nil, readFile_nil]
  · obtain ⟨e, herror, -⟩ := readFile_bare hbare
    rw [herror, herror]
  · by_cases hpass : Passable l.text
    swap
    · obtain ⟨cause, hres, -⟩ := resolve_of_not_passable l.text_ne_nil hpass
      rw [readFile_error (hres u), readFile_error (hres t)]
    have hfits : Fits l := ⟨hpass, hf.short⟩
    obtain ⟨hclear, htarget⟩ := h.at_leaf
    by_cases hc : t.Clear (l.origin t.current) l.dirs
    swap
    · rw [readFile_not_clear ht hfits hc, readFile_not_clear hu hfits (mt hclear.1 hc)]
    cases hget : t.get? (t.placeOf l.text) with
    | none =>
      rw [readFile_free hfits hc hget, readFile_free hfits (hclear.2 hc) (htarget.trans hget)]
    | some node =>
      rw [readFile_held ht hfits hget, readFile_held hu hfits (htarget.trans hget)]

theorem Alike.writeIfChanged_eq (bytes : Text) :
    (FileTree.writeIfChanged path bytes u).1 = (FileTree.writeIfChanged path bytes t).1 := by
  have hread := h.readFile_eq ht hu hp hf
  rcases hp with rfl | hbare | ⟨l, rfl⟩
  · obtain ⟨e, hnil⟩ := writeIfChanged_nil bytes
    obtain ⟨v, hout, -⟩ := hnil t
    obtain ⟨v', hout', -⟩ := hnil u
    rw [hout, hout']
  · obtain ⟨e, hout⟩ := writeIfChanged_bare hbare bytes
    rw [hout, hout]
  · obtain ⟨hclear, htarget⟩ := h.at_leaf
    -- Whenever the file is written at all, nothing is in the way in either tree.
    have hover : Passable l.text → (∀ e, t.readFile l.text = .error e → e.cause = .noEntry) →
        (overwrite l.text bytes u).1 = (overwrite l.text bytes t).1 := by
      intro hpass hmissing
      have hfits : Fits l := ⟨hpass, hf.short⟩
      obtain ⟨result, hresult⟩ := overwrite_ready hfits bytes
      have hc : t.Clear (l.origin t.current) l.dirs := by
        by_contra hc
        cases hmissing _ (readFile_not_clear ht hfits hc)
      have hvacant : t.get? (t.placeOf l.text) ≠ some .directory := by
        intro hdir
        cases hmissing _ (readFile_held ht hfits hdir)
      rw [hresult t hc hvacant, hresult u (hclear.2 hc) (htarget ▸ hvacant)]
    rw [writeIfChanged_eq, writeIfChanged_eq, hread]
    cases hcase : t.readFile l.text with
    | ok held =>
      dsimp only
      split
      · rfl
      · exact hover ((readFile_leaf l).1 hcase).1.passable fun e he => by simp [hcase] at he
    | error e =>
      dsimp only
      split
      next hcause =>
        refine hover (passable_of_noEntry l hcase hcause) fun e' he' => ?_
        rw [hcase] at he'
        cases he'
        exact hcause
      · rfl

end Alike

/-- One tree is the other after some files were written. -/
structure Beside (files : List (Text × Text)) (t u : FileTree) : Prop where
  joined : ∀ f ∈ files, IsJoined f.1
  sound : t.Sound
  same : Same (writeAll files t) u

namespace Beside

variable {files : List (Text × Text)} (h : Beside files t u)
include h

theorem touched : Touched t u (files.map fun f => t.placeOf f.1) := by
  obtain ⟨hcurrent, hdirs, helse⟩ := touched_writeAll (t := t) h.joined
  exact ⟨h.same.current.trans hcurrent, fun q hq => (h.same.entries q).trans (hdirs q hq),
    fun q hq => by rw [h.same.entries]; exact helse q hq⟩

theorem sound_right : u.Sound := h.same.sound (h.sound.writeAll h.joined)

theorem alike {place : List Text} (hsep : ∀ f ∈ files, Separate (t.placeOf f.1) place) :
    Alike t u place :=
  h.touched.alike h.sound.closed fun w hw => by
    obtain ⟨f, hf, rfl⟩ := List.mem_map.1 hw
    exact hsep f hf

theorem write (file : Text × Text) (hp : IsJoined file.1)
    (hsep : ∀ f ∈ files, Separate (t.placeOf file.1) (t.placeOf f.1)) :
    Beside files (writeIfChanged file.1 file.2 t).2 (writeIfChanged file.1 file.2 u).2 ∧
      (writeIfChanged file.1 file.2 u).1.toOption = (writeIfChanged file.1 file.2 t).1.toOption ∧
      (Fitting file.1 →
        (writeIfChanged file.1 file.2 u).1 = (writeIfChanged file.1 file.2 t).1) := by
  have halike := h.alike fun f hf => (hsep f hf).symm
  refine ⟨⟨h.joined, h.sound.write hp, ?_⟩, halike.writeIfChanged hp file.2, fun hf =>
    halike.writeIfChanged_eq h.sound.closed h.sound_right.closed hp hf file.2⟩
  exact (write_writeAll h.sound hp h.joined hsep).trans
    (h.same.write hp (h.sound.writeAll h.joined))

end Beside

end Literate.FileTree

import Literate.Proofs.FileTree.Descent

/-! Making the directories of a path. The directories are made one after the other from the
outermost, which succeeds exactly when each name is short enough and none of them is a file. On the
way nothing is changed but free places, which become directories. -/

namespace Literate.FileTree

open Literate.Path

/-- One tree is the other with more directories above or at a place. -/
structure Grown (t u : FileTree) (dir : List Text) : Prop where
  current : u.current = t.current
  entries : ∀ q, u.get? q = t.get? q ∨
    t.get? q = none ∧ u.get? q = some .directory ∧ q <+: dir

namespace Grown

variable {t u v : FileTree} {dir : List Text}

theorem refl (t : FileTree) (dir : List Text) : Grown t t dir := ⟨rfl, fun _ => .inl rfl⟩

theorem mono {dir' : List Text} (h : Grown t u dir) (hd : dir <+: dir') : Grown t u dir' :=
  ⟨h.current, fun q => (h.entries q).imp_right fun hq => ⟨hq.1, hq.2.1, hq.2.2.trans hd⟩⟩

theorem trans (h₁ : Grown t u dir) (h₂ : Grown u v dir) : Grown t v dir := by
  refine ⟨h₂.current.trans h₁.current, fun q => ?_⟩
  rcases h₂.entries q with h | ⟨hnone, hdir, hp⟩
  · rcases h₁.entries q with h' | ⟨hnone', hdir', hp'⟩
    · exact .inl (h.trans h')
    · exact .inr ⟨hnone', h.trans hdir', hp'⟩
  · rcases h₁.entries q with h' | ⟨-, hdir', -⟩
    · exact .inr ⟨h' ▸ hnone, hdir, hp⟩
    · rw [hdir'] at hnone
      cases hnone

theorem same (h : Grown t u dir) (hs : Same u v) : Grown t v dir :=
  ⟨hs.current.trans h.current, fun q => by rw [hs.entries q]; exact h.entries q⟩

theorem get?_file (h : Grown t u dir) {q : List Text} {bytes : Text} :
    u.get? q = some (.file bytes) ↔ t.get? q = some (.file bytes) := by
  rcases h.entries q with h | ⟨hnone, hdir, -⟩
  · rw [h]
  · simp [hnone, hdir]

theorem get?_some (h : Grown t u dir) {q : List Text} {node : FileNode}
    (hq : t.get? q = some node) : u.get? q = some node := by
  rcases h.entries q with h | ⟨hnone, -, -⟩
  · rw [h, hq]
  · rw [hnone] at hq
    cases hq

theorem clear_iff (h : Grown t u dir) {start names : List Text} :
    u.Clear start names ↔ t.Clear start names := by
  simp only [Clear, Along, ne_eq, h.get?_file]

theorem paved (h : Grown t u dir) {start names : List Text} (hp : t.Paved start names) :
    u.Paved start names :=
  fun ps hne hps => h.get?_some (hp ps hne hps)

end Grown

/-- What comes of making the directories that names lead to. -/
structure Paving (t : FileTree) (start names : List Text) (out : Except FileError Unit × FileTree) :
    Prop where
  grown : Grown t out.2 (start ++ names)
  ok_iff : out.1 = .ok () ↔ Short names ∧ t.Clear start names
  paved : out.1 = .ok () → out.2.Paved start names

namespace Paving

variable {t u : FileTree} {start names : List Text} {name : Text}
  {out : Except FileError Unit × FileTree}

/-- Directories that are there already are left as they are. -/
theorem of_paved (hs : Short names) (hp : t.Paved start names) :
    Paving t start names (.ok (), t) :=
  ⟨.refl t _, by simp [hs, hp.clear], fun _ => hp⟩

theorem of_blocked {e : FileError} (h : ¬(Short names ∧ t.Clear start names)) :
    Paving t start names (.error e, t) :=
  ⟨.refl t _, by simp [h], by simp⟩

theorem concat_error {e : FileError} (h : Paving t start names (.error e, u)) :
    Paving t start (names ++ [name]) (.error e, u) := by
  refine ⟨h.grown.mono (by simp), ⟨by simp, fun hall => ?_⟩, by simp⟩
  exact h.ok_iff.2 ⟨(short_concat.1 hall.1).1, (clear_concat.1 hall.2).1⟩

theorem trans (h : Paving t start names (.ok (), u)) (h' : Paving u start (names ++ [name]) out) :
    Paving t start (names ++ [name]) out := by
  refine ⟨(h.grown.mono (by simp)).trans h'.grown, ?_, h'.paved⟩
  rw [h'.ok_iff, h.grown.clear_iff]

end Paving

section Each

variable {t : FileTree} {path : Text} {made : Nat}

theorem makeEach_directory {q : List Text} (refusal : Refusal)
    (h : t.resolve path = .ok (.found q .directory)) :
    makeEach refusal [path] made t = (.ok (), t) := by
  simp [makeEach, makeOne, find, h]

theorem makeEach_free {q : List Text} (h : t.resolve path = .ok (.free q)) :
    makeEach Refusal.none [path] made t = (.ok (), t.set q .directory) := by
  simp [makeEach, makeOne, find, h, Refusal.none]

theorem makeEach_file {q : List Text} {bytes : Text} (refusal : Refusal)
    (h : t.resolve path = .ok (.found q (.file bytes))) :
    ∃ e, makeEach refusal [path] made t = (.error e, t) := by
  simp [makeEach, makeOne, find, h]

theorem makeEach_error {cause : FileCause} (h : t.resolve path = .error cause) :
    ∃ e, makeEach Refusal.none [path] made t = (.error e, t) := by
  simp [makeEach, makeOne, find, h, Refusal.none]

/-- The last of the directories is only tried after the others are there. -/
theorem makeEach_concat (refusal : Refusal) (paths : List Text) (path : Text) (made : Nat)
    (t : FileTree) :
    (∃ e u, makeEach refusal paths made t = (.error e, u) ∧
      makeEach refusal (paths ++ [path]) made t = (.error e, u)) ∨
    ∃ u made', makeEach refusal paths made t = (.ok (), u) ∧
      makeEach refusal (paths ++ [path]) made t = makeEach refusal [path] made' u := by
  induction paths generalizing made t with
  | nil => exact .inr ⟨t, made, rfl, rfl⟩
  | cons first paths ih =>
    rw [List.cons_append, makeEach, makeEach]
    cases makeOne refusal made t first with
    | ok next => exact ih next.2 next.1
    | error e => exact .inl ⟨e, t, rfl, rfl⟩

theorem paving_one {start dirs tail : List Text} {name : Text}
    (hres : t.resolve path = t.walk (.found start .directory) (dirs ++ name :: tail))
    (htail : tail = [] ∨ tail = [[]]) (hdirs : ∀ d ∈ dirs, IsName d) (hname : IsName name)
    (hs : Short dirs) (hp : t.Paved start dirs) :
    Paving t start (dirs ++ [name]) (makeEach Refusal.none [path] made t) := by
  rw [walk_paved hdirs hs hp, walk_name hname] at hres
  split at hres
  next hlong =>
    obtain ⟨e, he⟩ : ∃ e, makeEach Refusal.none [path] made t = (.error e, t) := makeEach_error hres
    rw [he]
    exact .of_blocked fun h => absurd (short_concat.1 h.1).2 (Nat.not_le.2 hlong)
  next hlen =>
    have hshort : Short (dirs ++ [name]) := short_concat.2 ⟨hs, Nat.not_lt.1 hlen⟩
    cases hget : t.get? (start ++ dirs ++ [name]) with
    | none =>
      have hfree : t.resolve path = .ok (.free (start ++ dirs ++ [name])) := by
        rw [hres, hget]
        rcases htail with rfl | rfl <;> rfl
      have hset : ∀ q, (t.set (start ++ dirs ++ [name]) .directory).get? q =
          if q = start ++ dirs ++ [name] then some .directory else t.get? q :=
        fun q => get?_set (by simp) _
      have hpaved : (t.set (start ++ dirs ++ [name]) .directory).Paved start (dirs ++ [name]) := by
        refine paved_concat.2 ⟨fun ps hne hps => ?_, by rw [hset, if_pos rfl]⟩
        rw [hset]
        split
        · rfl
        · exact hp ps hne hps
      rw [makeEach_free hfree]
      refine ⟨⟨rfl, fun q => ?_⟩, ?_, fun _ => hpaved⟩
      · dsimp only
        rw [hset]
        by_cases hq : q = start ++ dirs ++ [name]
        · exact .inr ⟨hq ▸ hget, if_pos hq, by simp [hq]⟩
        · exact .inl (if_neg hq)
      · simp only [true_iff]
        exact ⟨hshort, clear_concat.2 ⟨hp.clear, fun bytes => by rw [hget]; simp⟩⟩
    | some node =>
      cases node with
      | directory =>
        have hfound : t.resolve path = .ok (.found (start ++ dirs ++ [name]) .directory) := by
          rw [hres, hget]
          rcases htail with rfl | rfl <;> rfl
        rw [makeEach_directory _ hfound]
        exact .of_paved hshort (paved_concat.2 ⟨hp, hget⟩)
      | file bytes =>
        have hrefused : ∃ e, makeEach Refusal.none [path] made t = (.error e, t) := by
          rw [hget] at hres
          rcases htail with rfl | rfl
          · exact makeEach_file _ hres
          · exact makeEach_error hres
        obtain ⟨e, he⟩ := hrefused
        rw [he]
        exact .of_blocked fun h => (clear_concat.1 h.2).2 bytes hget

end Each

section Chain

theorem parentWords_lane (rooted : Bool) (parts : List Text) {part : Text} (hne : part ≠ [])
    (hslash : slash ∉ part) :
    parentWords (root rooted ++ lane (parts ++ [part])) = root rooted ++ lane parts := by
  have htext : root rooted ++ lane (parts ++ [part]) =
      root rooted ++ lane parts ++ part ++ [slash] := by simp
  have htrim := trim_append (root rooted ++ lane parts) hne hslash
  rw [parentWords, htext, List.reverse_append, List.reverse_singleton, List.singleton_append,
    List.dropWhile_cons_of_pos (by simp), htrim, cutLast_append (ends_lane _ _) hslash]

theorem parentWords_text (l : Leaf) : parentWords l.text = l.stem := by
  rw [parentWords, Leaf.text, trim_append l.stem l.name_isName.ne_nil l.name_isName.no_slash,
    ← Leaf.text, l.cutLast_text]

theorem parentWords_root (rooted : Bool) : parentWords (root rooted) = [] := by
  cases rooted <;> rfl

theorem directoryChain_succ (n : Nat) (path : Text) :
    directoryChain (n + 1) path =
      (if parentWords path = [] then [] else directoryChain n (parentWords path)) ++ [path] := by
  rw [directoryChain]
  split <;> rfl

variable {t : FileTree} {rooted : Bool} {ups : Nat} {dirs : List Text}

/-- The directories above a path are made by the same means, unless there are none. -/
theorem makeEach_above {P : Except FileError Unit × FileTree → Prop} (n made : Nat) (path : Text)
    (hnil : parentWords path = [] → P (.ok (), t))
    (habove : parentWords path ≠ [] →
      P (makeEach Refusal.none (directoryChain n (parentWords path)) made t)) :
    P (makeEach Refusal.none
      (if parentWords path = [] then [] else directoryChain n (parentWords path)) made t) := by
  split
  next h => exact hnil h
  next h => exact habove h

theorem resolve_climbs (h : Passable (root rooted ++ lane (climbs ups))) :
    t.resolve (root rooted ++ lane (climbs ups)) =
      .ok (.found (source rooted ups t.current) .directory) := by
  have hlane := resolve_lane (t := t) rooted ups [] (List.forall_mem_nil IsName) (by simp)
  simp only [List.append_nil, List.nil_append] at hlane
  rw [hlane h]
  rfl

theorem makeEach_climbs (n made : Nat) (h : Passable (root rooted ++ lane (climbs ups))) :
    makeEach Refusal.none (directoryChain n (root rooted ++ lane (climbs ups))) made t =
      (.ok (), t) := by
  induction n generalizing ups made with
  | zero => exact makeEach_directory _ (resolve_climbs h)
  | succ n ih =>
    rw [directoryChain_succ]
    have habove := makeEach_above (P := (· = (.ok (), t))) n made
      (root rooted ++ lane (climbs ups)) (fun _ => rfl) fun hne => by
        cases ups with
        | zero => simp [climbs, parentWords_root] at hne
        | succ ups =>
          have hclimbs : climbs (ups + 1) = climbs ups ++ [(".." : Text)] := List.replicate_succ' ..
          rw [hclimbs, parentWords_lane _ _ (by decide) (by decide)] at hne ⊢
          exact ih made (h.of_prefix ⟨".." ++ [slash], by simp [hclimbs]⟩ hne)
    rcases makeEach_concat Refusal.none _ (root rooted ++ lane (climbs ups)) made t with
      ⟨e, u, he, -⟩ | ⟨u, made', hu, hlast⟩
    · rw [habove] at he
      cases he
    · rw [habove] at hu
      cases hu
      rw [hlast, makeEach_directory _ (resolve_climbs h)]

/-- With the directories above it there, the last name is all that is left to make. -/
theorem paving_next {n made : Nat} {path name : Text} (tail : List Text)
    (hparent : parentWords path = root rooted ++ lane (climbs ups ++ dirs))
    (hres : ∀ u : FileTree, u.current = t.current → u.resolve path =
      u.walk (.found (source rooted ups t.current) .directory) (dirs ++ name :: tail))
    (htail : tail = [] ∨ tail = [[]]) (hdirs : ∀ d ∈ dirs, IsName d) (hname : IsName name)
    (habove : parentWords path ≠ [] → Paving t (source rooted ups t.current) dirs
      (makeEach Refusal.none (directoryChain n (parentWords path)) made t)) :
    Paving t (source rooted ups t.current) (dirs ++ [name])
      (makeEach Refusal.none (directoryChain (n + 1) path) made t) := by
  have hbefore : Paving t (source rooted ups t.current) dirs (makeEach Refusal.none
      (if parentWords path = [] then [] else directoryChain n (parentWords path)) made t) := by
    refine makeEach_above n made path (fun hnil => ?_) habove
    obtain rfl : dirs = [] := by
      cases dirs with
      | nil => rfl
      | cons d dirs => simp [hparent, lane] at hnil
    exact .of_paved (by simp [Short]) (along_nil t _ _)
  rw [directoryChain_succ]
  rcases makeEach_concat Refusal.none _ path made t with ⟨e, u, he, hout⟩ | ⟨u, made', hu, hout⟩
  · rw [hout]
    rw [he] at hbefore
    exact hbefore.concat_error
  · rw [hout]
    rw [hu] at hbefore
    obtain ⟨hs, -⟩ := hbefore.ok_iff.1 rfl
    exact hbefore.trans
      (paving_one (hres u hbefore.grown.current) htail hdirs hname hs (hbefore.paved rfl))

/-- The directories of a path up to a slash. -/
theorem paving_lane (n made : Nat) (hdirs : ∀ d ∈ dirs, IsName d) (hn : dirs.length ≤ n)
    (h : Passable (root rooted ++ lane (climbs ups ++ dirs))) :
    Paving t (source rooted ups t.current) dirs (makeEach Refusal.none
      (directoryChain n (root rooted ++ lane (climbs ups ++ dirs))) made t) := by
  induction dirs using List.reverseRecOn generalizing n made with
  | nil =>
    rw [List.append_nil] at h ⊢
    rw [makeEach_climbs n made h]
    exact .of_paved (by simp [Short]) (along_nil t _ _)
  | append_singleton dirs name ih =>
    have hname := hdirs name (by simp)
    have hbefore : ∀ d ∈ dirs, IsName d := fun d hd => hdirs d (by simp [hd])
    obtain ⟨n, rfl⟩ : ∃ k, n = k + 1 := ⟨n - 1, by simp at hn; omega⟩
    have hparent : parentWords (root rooted ++ lane (climbs ups ++ (dirs ++ [name]))) =
        root rooted ++ lane (climbs ups ++ dirs) := by
      rw [← List.append_assoc, parentWords_lane _ _ hname.ne_nil hname.no_slash]
    refine paving_next [[]] hparent (fun u hu => ?_) (.inr rfl) hbefore hname fun hne => ?_
    · have hlane := resolve_lane (t := u) rooted ups [] hdirs (by simp)
      simp only [List.append_nil] at hlane
      rw [hlane h, hu]
      simp
    · rw [hparent] at hne ⊢
      refine ih n made hbefore (by simpa using hn) (h.of_prefix ⟨name ++ [slash], ?_⟩ hne)
      simp

theorem length_le_lane (parts : List Text) : parts.length ≤ (lane parts).length := by
  induction parts with
  | nil => simp
  | cons part parts ih =>
    simp only [lane_cons, List.length_cons, List.length_append]
    omega

theorem length_dirs_lt (l : Leaf) : l.dirs.length < l.text.length := by
  have hlane := length_le_lane l.parts
  have hname := List.length_pos_iff.2 l.name_isName.ne_nil
  simp only [Leaf.parts, List.length_append] at hlane
  simp only [Leaf.text, Leaf.stem, Leaf.parts, List.length_append]
  omega

theorem paving_leaf (l : Leaf) (made : Nat) (h : Passable l.text) :
    Paving t (l.origin t.current) (l.dirs ++ [l.name])
      (makeEach Refusal.none (directoryChain l.text.length l.text) made t) := by
  have hfuel := length_dirs_lt l
  obtain ⟨n, hn⟩ : ∃ n, l.text.length = n + 1 := Nat.exists_eq_add_one_of_ne_zero (by omega)
  rw [hn] at hfuel ⊢
  refine paving_next [] (parentWords_text l) (fun u hu => ?_) (.inl rfl) l.dirs_isName
    l.name_isName fun hne => ?_
  · rw [resolve_leaf l h, hu]
    rfl
  · rw [parentWords_text] at hne ⊢
    exact paving_lane n made l.dirs_isName (by omega) (h.of_prefix ⟨l.name, rfl⟩ hne)

end Chain

section Directories

variable {t : FileTree} (l : Leaf)

theorem passable_directory (h : Passable l.text) : Passable (directory l.text) := by
  rcases l.directory_text_prefix with hdot | hprefix
  · rw [hdot]
    exact ⟨by decide, by decide, by decide⟩
  · refine h.of_prefix hprefix fun hnil => ?_
    rcases l.directory_cases with ⟨-, hbare, -⟩ | ⟨above, habove, -⟩
    · exact hbare.ne_nil hnil
    · exact above.text_ne_nil (habove ▸ hnil)

/-- The directory of a path is found when all its names lead to directories. -/
theorem find_directory (h : Passable l.text) (hs : Short l.dirs)
    (hp : t.Paved (l.origin t.current) l.dirs) :
    t.find (directory l.text) = .ok (l.parent t.current, .directory) := by
  have hpass := passable_directory l h
  rcases l.directory_cases with ⟨hdirs, hbare, hspelled⟩ | ⟨above, habove, hdirs, horigin⟩
  · rw [find_eq_ok, resolve_bare hbare hpass, hspelled, Leaf.parent, hdirs, List.append_nil]
  · rw [habove] at hpass ⊢
    rw [hdirs] at hs hp
    obtain ⟨hpaved, hlast⟩ := paved_concat.1 hp
    have hplace : l.parent t.current = above.parent t.current ++ [above.name] := by
      rw [Leaf.parent, Leaf.parent, hdirs, horigin, List.append_assoc]
    refine (find_leaf above).2 ⟨⟨hpass, hs⟩, horigin _ ▸ hpaved, hplace, ?_⟩
    rw [hplace, Leaf.parent, horigin]
    exact hlast

theorem paving_makeDirectories (h : Passable l.text) :
    Paving t (l.origin t.current) l.dirs
      (makeDirectories Refusal.none (directory l.text) t) := by
  have hpass := passable_directory l h
  rcases l.directory_cases with ⟨hdirs, hbare, -⟩ | ⟨above, habove, hdirs, horigin⟩
  · have hfind := find_eq_ok.2 (resolve_bare (t := t) hbare hpass)
    rw [makeDirectories, hfind, hdirs]
    exact .of_paved (by simp [Short]) (along_nil t _ _)
  · rw [habove] at hpass ⊢
    rw [makeDirectories, hdirs, ← horigin]
    split
    next place hfind =>
      obtain ⟨hfits, hpaved, rfl, hget⟩ := (find_leaf above).1 hfind
      exact .of_paved hfits.short (paved_concat.2 ⟨hpaved, hget⟩)
    next place bytes hfind =>
      obtain ⟨-, -, rfl, hget⟩ := (find_leaf above).1 hfind
      exact .of_blocked fun hall => (clear_concat.1 hall.2).2 bytes hget
    next => exact paving_leaf above 0 hpass

end Directories

end Literate.FileTree

import Literate.Proofs.FileTree.Walks

/-! Replacements in a file system that may refuse any step. Whatever step is refused, for whatever
cause, the temporary file is gone afterwards, directories of the path are all that is new, and the
file holds either the old content or the new. -/

namespace Literate.FileTree

open Literate.Path

variable {t u : FileTree} {refusal : Refusal} {path bytes : Text}

section Directories

variable {dir : List Text} {made : Nat} {paths : List Text}

theorem makeOne_grown {made' : Nat} (hfree : ∀ q, t.resolve path = .ok (.free q) → q <+: dir)
    (h : makeOne refusal made t path = .ok (u, made')) : Grown t u dir := by
  unfold makeOne at h
  split at h
  · cases h
    exact .refl t dir
  · cases h
  · split at h
    · cases h
    · split at h
      next q hq =>
        cases h
        have hnone := get?_of_resolve_free hq
        have hne : q ≠ [] := by
          rintro rfl
          simp [get?] at hnone
        refine ⟨rfl, fun place => ?_⟩
        rw [get?_set hne]
        split
        next heq => exact .inr ⟨heq ▸ hnone, rfl, heq ▸ hfree q hq⟩
        · exact .inl rfl
      · cases h
      · cases h

/-- Making the directories of paths that spell places above a place makes directories there. -/
theorem makeEach_grown (h : ∀ path ∈ paths, ∀ v : FileTree, v.current = t.current →
      ∀ q, v.resolve path = .ok (.free q) → q <+: dir) :
    Grown t (makeEach refusal paths made t).2 dir := by
  induction paths generalizing made t with
  | nil => exact .refl t dir
  | cons path paths ih =>
    rw [makeEach]
    cases hone : makeOne refusal made t path with
    | error e => exact .refl t dir
    | ok next =>
      obtain ⟨v, made'⟩ := next
      have hfirst : Grown t v dir := makeOne_grown (h path (by simp) t rfl) hone
      refine hfirst.trans (ih fun path hpath v' hv => ?_)
      exact h path (by simp [hpath]) v' (hv.trans hfirst.current)

end Directories

section Chain

variable {rooted : Bool} {ups : Nat} {dirs : List Text}

/-- The paths that are made for a path up to a slash end at its slashes. -/
theorem mem_directoryChain_lane {n : Nat} (hdirs : ∀ d ∈ dirs, IsName d)
    (h : path ∈ directoryChain n (root rooted ++ lane (climbs ups ++ dirs))) :
    ∃ k ds, ds <+: dirs ∧ (k = ups ∨ ds = []) ∧ path = root rooted ++ lane (climbs k ++ ds) := by
  induction n generalizing ups dirs with
  | zero => exact ⟨ups, dirs, List.prefix_rfl, .inl rfl, by simpa [directoryChain] using h⟩
  | succ n ih =>
    rw [directoryChain_succ] at h
    rcases List.mem_append.1 h with h | h
    swap
    · exact ⟨ups, dirs, List.prefix_rfl, .inl rfl, by simpa using h⟩
    split at h
    · cases h
    next hparent =>
      cases dirs using List.reverseRecOn with
      | append_singleton dirs name =>
        have hname := hdirs name (by simp)
        rw [← List.append_assoc, parentWords_lane _ _ hname.ne_nil hname.no_slash] at h
        obtain ⟨k, ds, hds, hk, hpath⟩ := ih (fun d hd => hdirs d (by simp [hd])) h
        exact ⟨k, ds, hds.trans (List.prefix_append _ _), hk, hpath⟩
      | nil =>
        rw [List.append_nil] at h hparent
        cases ups with
        | zero => simp [climbs, parentWords_root] at hparent
        | succ ups =>
          have hclimbs : climbs (ups + 1) = climbs ups ++ [(".." : Text)] := List.replicate_succ' ..
          rw [hclimbs, parentWords_lane _ _ (by decide) (by decide), ← List.append_nil (climbs ups)]
            at h
          obtain ⟨k, ds, hds, -, hpath⟩ := ih (by simp) h
          exact ⟨k, ds, hds, .inr (List.prefix_nil.1 hds), hpath⟩

/-- Of the paths up to a slash only those with names can be free. -/
theorem prefix_of_free_lane {k : Nat} {ds : List Text} {q : List Text} (hdirs : ∀ d ∈ dirs, IsName d)
    (hds : ds <+: dirs) (hk : k = ups ∨ ds = [])
    (h : t.resolve (root rooted ++ lane (climbs k ++ ds)) = .ok (.free q)) :
    q <+: source rooted ups t.current ++ dirs := by
  have hpass := passable_of_resolve h
  rcases hk with rfl | rfl
  · have hnames : ∀ d ∈ ds, IsName d := fun d hd => hdirs d (hds.subset hd)
    have hlane := resolve_lane (t := t) rooted k [] hnames (by simp)
    simp only [List.append_nil] at hlane
    rw [hlane hpass] at h
    have hq : q = source rooted k t.current ++ ds := by
      have haddress := address_of_walk h
      rw [List.foldl_append, foldl_climb_names hnames] at haddress
      exact haddress
    rw [hq]
    exact (List.prefix_append_right_inj _).2 hds
  · rw [List.append_nil] at h hpass
    rw [resolve_climbs hpass] at h
    cases h

theorem parentWords_concat {before last : Text} (hends : Ends before) (hne : last ≠ [])
    (hslash : slash ∉ last) : parentWords (before ++ last) = before := by
  rw [parentWords, trim_append before hne hslash, cutLast_append hends hslash]

/-- Whatever is refused, directories of a path are all that is made when its directory is. -/
theorem grown_makeDirectories (refusal : Refusal) (path : Text) (t : FileTree) :
    Grown t (makeDirectories refusal (directory path) t).2 (t.placeOf (directory path)) := by
  unfold makeDirectories
  split
  · exact .refl t _
  · exact .refl t _
  refine makeEach_grown fun next hnext v hv q hq => ?_
  by_cases hself : next = directory path
  · have haddress : q = v.placeOf next := address_of_resolve hq
    rw [haddress, hself, placeOf, hv, placeOf]
  -- A clean path climbs at its beginning only, and goes down by names from there.
  obtain ⟨ups, names, hparts, hnames, hrooted⟩ := reduced_components (cutLast path).1
  have hclean : directory path = spell (isAbsolute (cutLast path).1) (climbs ups ++ names) := by
    rw [directory, clean_eq_spell, hparts]
  generalize isAbsolute (cutLast path).1 = rooted at hclean hrooted
  rw [hclean] at hnext hself ⊢
  rw [placeOf, spelled_spell hnames hrooted, ← hv]
  obtain ⟨n, habove⟩ : ∃ n, next ∈ directoryChain n
        (parentWords (spell rooted (climbs ups ++ names))) ∧
      parentWords (spell rooted (climbs ups ++ names)) ≠ [] := by
    cases hlen : (spell rooted (climbs ups ++ names)).length with
    | zero => simp [hlen, directoryChain, hself] at hnext
    | succ n =>
      rw [hlen, directoryChain_succ] at hnext
      have hmem := (List.mem_append.1 hnext).resolve_right (by simpa using hself)
      split at hmem
      · cases hmem
      next hne => exact ⟨n, hmem, hne⟩
  obtain ⟨hmem, hparent⟩ := habove
  cases names using List.reverseRecOn with
  | append_singleton names name =>
    have hname := hnames name (by simp)
    have hdirs : ∀ d ∈ names, IsName d := fun d hd => hnames d (by simp [hd])
    rw [← List.append_assoc, spell_concat, parentWords_concat (ends_lane _ _) hname.ne_nil
      hname.no_slash] at hmem
    obtain ⟨k, ds, hds, hk, rfl⟩ := mem_directoryChain_lane hdirs hmem
    exact prefix_of_free_lane hnames (hds.trans (List.prefix_append _ _)) hk hq
  | nil =>
    rw [List.append_nil] at hmem hparent
    cases ups with
    | zero => cases rooted <;> exact absurd rfl hparent
    | succ ups =>
      have hclimbs : climbs (ups + 1) = climbs ups ++ [(".." : Text)] := List.replicate_succ' ..
      rw [hclimbs, spell_concat, parentWords_concat (ends_lane _ _) (by decide) (by decide),
        ← List.append_nil (climbs ups)] at hmem
      obtain ⟨k, ds, hds, -, rfl⟩ := mem_directoryChain_lane (by simp) hmem
      exact prefix_of_free_lane (by simp) hds (.inr (List.prefix_nil.1 hds)) hq

end Chain

section Move

variable {dir place : List Text}

theorem base_of_name (h : (cutLast path).2 ≠ []) : base path = (cutLast path).2 := by
  obtain ⟨hback, -, hslash⟩ := cutLast_spec path
  have hne : path ≠ [] := by
    rintro rfl
    exact h rfl
  have htrim := trim_append (cutLast path).1 h hslash
  rw [hback] at htrim
  rw [base, if_neg hne]
  simp only [htrim, if_neg hne]

/-- A temporary file is put into the directory of its path, under a name that is free there. -/
theorem temporaryPlace_eq_ok (h : temporaryPlace path t = .ok place) :
    ∃ dir digits, t.find (directory path) = .ok (dir, .directory) ∧
      place = dir ++ [temporaryName (base path) digits] ∧ t.get? place = none := by
  simp only [temporaryPlace] at h
  split at h
  · cases h
  split at h
  · cases h
  split at h
  · cases h
  split at h
  next dir hfind =>
    obtain ⟨n, hfree, hnone⟩ := exists_freePlace t dir (base path)
    rw [hfree] at h
    cases h
    exact ⟨dir, _, hfind, rfl, hnone⟩
  · cases h
  · cases h

theorem moveFile_eq_ok (h : moveFile place path t = .ok u) : ∃ node p, t.get? place = some node ∧
    t.resolve path = .ok p ∧ (∀ q, p ≠ .found q .directory) ∧
    u = (t.erase place).set p.address node := by
  unfold moveFile at h
  split at h
  · cases h
  next node hget =>
    split at h
    · cases h
    next q bytes hres =>
      cases h
      exact ⟨node, _, hget, hres, by simp, rfl⟩
    next q hres =>
      cases h
      exact ⟨node, _, hget, hres, by simp, rfl⟩
    · cases h

/-- Until it is moved, only the temporary file is touched. -/
theorem fillAndMove_cases (refusal : Refusal) (path bytes : Text) (place : List Text)
    (t : FileTree) :
    (∃ e u, fillAndMove refusal path bytes place t = (.error e, u) ∧ u.erase place = t.erase place) ∨
    ∃ u, moveFile place path (t.set place (.file bytes)) = .ok u ∧
      fillAndMove refusal path bytes place t = (.ok true, u) := by
  have hfilled := erase_set (t := t) place (.file bytes)
  unfold fillAndMove
  cases refusal .write with
  | some cause => exact .inl ⟨_, t, rfl, rfl⟩
  | none =>
    dsimp only
    split
    · exact .inl ⟨_, _, rfl, hfilled⟩
    · exact .inl ⟨_, _, rfl, hfilled⟩
    · exact .inl ⟨_, _, rfl, hfilled⟩
    · cases hmove : moveFile place path (t.set place (.file bytes)) with
      | error e => exact .inl ⟨_, _, rfl, hfilled⟩
      | ok u => exact .inr ⟨u, rfl, rfl⟩

/-- Whatever is refused, the temporary file is taken away unless it is moved. -/
theorem withTemporary_cases (refusal : Refusal) (path bytes : Text) (place : List Text)
    (t : FileTree) :
    (∃ e, withTemporary refusal path bytes place t = (.error e, t.erase place)) ∨
    ∃ u, moveFile place path (t.set place (.file bytes)) = .ok u ∧
      withTemporary refusal path bytes place t = (.ok true, u.erase place) := by
  unfold withTemporary
  rcases fillAndMove_cases refusal path bytes place (t.set place (.file [])) with
    ⟨e, u, hout, hsame⟩ | ⟨u, hmove, hout⟩
  · rw [hout]
    exact .inl ⟨e, Prod.ext rfl (hsame.trans (erase_set place (.file [])))⟩
  · rw [set_set] at hmove
    rw [hout]
    exact .inr ⟨u, hmove, rfl⟩

/-- A path that ends in no name leads to nothing free but what its directory lacks. -/
theorem get?_of_free_steering (hdir : t.find (directory path) = .ok (dir, .directory))
    (hcurrent : u.current = t.current) (hsteers : Steers (cutLast path).2) {q : List Text}
    (h : u.resolve path = .ok (.free q)) : t.get? q = some .directory := by
  obtain ⟨before, name, after, hsplit, hname, hempty⟩ :=
    exists_name_of_walk_free (resolve_eq_ok.1 h).2
  obtain ⟨parts, hlast, hcut, -⟩ := split_cutLast path
  -- only slashes come behind the name, and the last component is no name, so the path ends in one
  cases after using List.reverseRecOn with
  | nil =>
    rw [hsplit] at hlast
    have heq : name = (cutLast path).2 := by simpa using (List.append_inj' hlast rfl).2
    exact absurd (heq ▸ hsteers) hname
  | append_singleton after last =>
    rw [hsplit, ← List.cons_append, ← List.append_assoc] at hlast
    obtain ⟨hparts, hslash⟩ := List.append_inj' hlast rfl
    have hnil : (cutLast path).2 = [] := by
      rw [← List.singleton_inj.1 hslash]
      exact hempty last (by simp)
    have hplace : q = t.placeOf (directory path) := by
      have haddress : q = u.placeOf path := address_of_resolve h
      rw [haddress, placeOf, spelled_eq_climb, hnil, climb, if_pos (.inl rfl), hcurrent, placeOf]
    have hbare : ¬Bare (directory path) := by
      have hsplit' : Text.split slash (cutLast path).1 = before ++ name :: (after ++ [[]]) := by
        rw [hcut, ← hparts]
        simp
      refine not_bare_clean hsplit' hname fun part hpart => ?_
      rcases List.mem_append.1 hpart with hpart | hpart
      · exact hempty part (by simp [hpart])
      · simpa using hpart
    obtain ⟨l, hl⟩ := (clean_cases (cutLast path).1).resolve_left hbare
    rw [hplace, ← place_of_find hdir]
    rw [directory, hl] at hdir
    exact ((find_leaf l).1 hdir).2.2.2

/-- A tree in which a path leads to the bytes and all else is as it was. -/
structure Put (t u : FileTree) (path bytes : Text) : Prop where
  current : u.current = t.current
  leads : u.find path = .ok (t.placeOf path, .file bytes)
  elsewhere : ∀ q, q ≠ t.placeOf path → u.get? q = t.get? q

/-- A file is moved only to a path that ends in a name. -/
theorem name_of_move {p : Place} (hdir : t.find (directory path) = .ok (dir, .directory))
    (hne : place ≠ []) (hp : ∀ q, p ≠ .found q .directory)
    (hres : (t.set place (.file bytes)).resolve path = .ok p) : ¬Steers (cutLast path).2 := by
  intro hsteers
  cases p with
  | found q node =>
    obtain rfl := directory_of_find hsteers (find_eq_ok.2 hres)
    exact hp q rfl
  | free q =>
    have hnone := get?_of_resolve_free hres
    rw [get?_set hne] at hnone
    split at hnone
    · cases hnone
    · rw [get?_of_free_steering (u := t.set place (.file bytes)) hdir rfl hsteers hres] at hnone
      cases hnone

/-- The temporary file is all that is moved, to the place that the path spells. -/
theorem put_of_moveFile (hplace : temporaryPlace path t = .ok place)
    (h : moveFile place path (t.set place (.file bytes)) = .ok u) :
    Put t (u.erase place) path bytes := by
  obtain ⟨dir, digits, hdir, hbeside, hfree⟩ := temporaryPlace_eq_ok hplace
  have hne : place ≠ [] := by simp [hbeside]
  obtain ⟨node, p, hheld, hres, hp, rfl⟩ := moveFile_eq_ok h
  obtain rfl : .file bytes = node := by
    rw [get?_set hne, if_pos rfl] at hheld
    exact Option.some.inj hheld
  have hname := name_of_move hdir hne hp hres
  obtain ⟨-, above, -, -, -, habove, hfound⟩ := resolve_name hname hres
  have hvacant : (t.set place (.file bytes)).get? p.address ≠ some .directory := by
    cases p with
    | found q node =>
      intro hget
      have hnode : node = .directory := Option.some.inj ((hfound q node rfl).symm.trans hget)
      exact hp q (hnode ▸ rfl)
    | free q =>
      rw [Place.address, get?_of_resolve_free hres]
      simp
  have hapart : p.address ≠ place := by
    rw [habove, hbeside]
    intro heq
    have hlast := List.singleton_inj.1 (List.append_inj' heq rfl).2
    rw [← base_of_name fun hnil => hname (.inl hnil)] at hlast
    exact temporaryName_ne (base path) digits hlast.symm
  have hget : ∀ q, ((((t.set place (.file bytes)).erase place).set p.address
      (.file bytes)).erase place).get? q = if q = p.address then some (.file bytes) else t.get? q :=
    get?_moved hne (by simp [habove]) hapart hfree
  have hkeep : ∀ q, (t.set place (.file bytes)).get? q = some .directory →
      ((((t.set place (.file bytes)).erase place).set p.address (.file bytes)).erase place).get? q =
        some .directory := by
    intro q hq
    have hother : q ≠ p.address := by
      rintro rfl
      exact hvacant hq
    rw [hget, if_neg hother]
    rw [get?_set hne] at hq
    split at hq
    · cases hq
    · exact hq
  have haddress : p.address = t.placeOf path :=
    address_of_resolve (t := t.set place (.file bytes)) hres
  refine ⟨rfl, ?_, fun q hq => ?_⟩
  · rw [← haddress]
    refine find_mono (t := t.set place (.file bytes)) ?_ hkeep hname hres
      ((hget _).trans (if_pos rfl))
    rfl
  · rw [← haddress] at hq
    exact (hget q).trans (if_neg hq)

end Move

section Whole

/-- The part of a replacement that writes, with the refusals that it meets. -/
def attempt (refusal : Refusal) (path bytes : Text) (t : FileTree) :
    Except ReplaceError Bool × FileTree :=
  match makeDirectories refusal (directory path) t with
  | (.error e, t) => (.error ⟨"create dir", e⟩, t)
  | (.ok (), t) =>
    match refusal .createTemporary with
    | some cause => (.error ⟨"create temp", ⟨"open", [temporaryPath path], cause⟩⟩, t)
    | .none =>
      match temporaryPlace path t with
      | .error e => (.error ⟨"create temp", e⟩, t)
      | .ok place => withTemporary refusal path bytes place t

/-- Writing either puts the bytes where the path leads or makes directories of the path only. -/
theorem attempt_cases (refusal : Refusal) (path bytes : Text) (t : FileTree) :
    ∃ u, Grown t u (t.placeOf (directory path)) ∧
      ((∃ e, attempt refusal path bytes t = (.error e, u)) ∨
        ∃ v, attempt refusal path bytes t = (.ok true, v) ∧ Put u v path bytes) := by
  have hgrown := grown_makeDirectories refusal path t
  unfold attempt
  rcases hmade : makeDirectories refusal (directory path) t with ⟨result, u⟩
  rw [hmade] at hgrown
  cases result with
  | error e => exact ⟨u, hgrown, .inl ⟨_, rfl⟩⟩
  | ok _ =>
    dsimp only
    cases refusal .createTemporary with
    | some cause => exact ⟨u, hgrown, .inl ⟨_, rfl⟩⟩
    | none =>
      cases hplace : temporaryPlace path u with
      | error e => exact ⟨u, hgrown, .inl ⟨_, rfl⟩⟩
      | ok place =>
        rcases withTemporary_cases refusal path bytes place u with ⟨e, hout⟩ | ⟨v, hmove, hout⟩
        · obtain ⟨dir, digits, -, rfl, hfree⟩ := temporaryPlace_eq_ok hplace
          exact ⟨_, hgrown.same (same_erase (by simp) hfree), .inl ⟨e, hout⟩⟩
        · exact ⟨u, hgrown, .inr ⟨_, hout, put_of_moveFile hplace hmove⟩⟩

/-- The bytes are there already, or the file cannot be read, or the bytes are written. -/
theorem replace_cases (refusal : Refusal) (path bytes : Text) (t : FileTree) :
    (refusal .read = none ∧ t.readFile path = .ok bytes ∧
      replace refusal path bytes t = (.ok false, t)) ∨
    (∃ e, replace refusal path bytes t = (.error e, t)) ∨
    (refusal .read = some .noEntry ∨ t.readFile path ≠ .ok bytes) ∧
      replace refusal path bytes t = attempt refusal path bytes t := by
  cases hrefused : refusal .read with
  | some cause =>
    have hreplace : replace refusal path bytes t = if cause = .noEntry
        then attempt refusal path bytes t
        else (.error ⟨"read " ++ path, ⟨"open", [path], cause⟩⟩, t) := by
      simp only [replace, hrefused]
      rfl
    rw [hreplace]
    by_cases hcause : cause = .noEntry
    · exact .inr (.inr ⟨.inl (by rw [hcause]), if_pos hcause⟩)
    · exact .inr (.inl ⟨_, if_neg hcause⟩)
  | none =>
    cases hread : t.readFile path with
    | ok held =>
      have hreplace : replace refusal path bytes t = if held = bytes then (.ok false, t)
          else attempt refusal path bytes t := by
        simp only [replace, hrefused, hread]
        rfl
      rw [hreplace]
      by_cases hheld : held = bytes
      · exact .inl ⟨rfl, by rw [hheld], if_pos hheld⟩
      · exact .inr (.inr ⟨.inr (by simpa using hheld), if_neg hheld⟩)
    | error e =>
      have hreplace : replace refusal path bytes t = if e.cause = .noEntry
          then attempt refusal path bytes t else (.error ⟨"read " ++ path, e⟩, t) := by
        simp only [replace, hrefused, hread]
        rfl
      rw [hreplace]
      by_cases hcause : e.cause = .noEntry
      · exact .inr (.inr ⟨.inr (by simp), if_pos hcause⟩)
      · exact .inr (.inl ⟨_, if_neg hcause⟩)

theorem stat_toOption (t : FileTree) (path : Text) :
    (t.stat path).toOption = (t.find path).toOption.map Prod.snd := by
  unfold stat
  split
  next hfind => simp [hfind, Except.toOption]
  next hfind => simp [hfind, Except.toOption]

/-- Directories that are made do not lead a path that ends in a name anywhere new. -/
theorem stat_of_grown (ht : t.Closed) (hgrown : Grown t u (t.placeOf (directory path))) :
    (u.stat path).toOption = (t.stat path).toOption ∨
    Steers (cutLast path).2 ∧ (t.stat path).toOption = none ∧
      (u.stat path).toOption = some .directory := by
  simp only [stat_toOption]
  cases hfind : t.find path with
  | ok entry =>
    rw [find_of_get?_mono hgrown.current (fun _ _ => hgrown.get?_some) hfind]
    exact .inl rfl
  | error cause =>
    cases hfind' : u.find path with
    | error cause' => exact .inl rfl
    | ok entry =>
      obtain ⟨q, node⟩ := entry
      by_cases hsteers : Steers (cutLast path).2
      · obtain rfl := directory_of_find hsteers hfind'
        exact .inr ⟨hsteers, rfl, rfl⟩
      -- the entry is not one of the directories made, so those above it were there before
      obtain ⟨-, -, -, -, -, -, hfound⟩ := resolve_name hsteers (find_eq_ok.1 hfind')
      have hq : q = t.placeOf (directory path) ++ [(cutLast path).2] := by
        rw [place_of_find hfind', placeOf, spelled_eq_climb, climb_onward hsteers, hgrown.current,
          placeOf]
      have hhere : t.get? q ≠ none := by
        rcases hgrown.entries q with h | ⟨-, -, hpre⟩
        · rw [← h, hfound q node rfl]
          simp
        · have hlen := hpre.length_le
          rw [hq, List.length_append, List.length_singleton] at hlen
          omega
      have hback : ∀ r node, u.get? r = some node → t.get? r = some node := by
        intro r node hget
        rcases hgrown.entries r with h | ⟨hnone, -, hpre⟩
        · rw [← h, hget]
        · rw [ht.free_below (hq ▸ hpre.trans (List.prefix_append _ _)) hnone] at hhere
          exact absurd rfl hhere
      rw [find_of_get?_mono hgrown.current.symm hback hfind'] at hfind
      cases hfind

/-- Replacing a file is all or nothing, at whatever steps the file system refuses and for whatever
causes. The file holds the bytes, or what the path leads to is as it was, unless the path ends in no
name and now leads to a directory that was made for it; no temporary file is left. -/
theorem replace_all_or_nothing (refusal : Refusal) (path bytes : Text) (ht : t.Closed) :
    let out := replace refusal path bytes t
    (out.1 = .ok true → out.2.readFile path = .ok bytes ∧
      (refusal .read ≠ some .noEntry → t.readFile path ≠ .ok bytes)) ∧
    (out.1 = .ok false ↔ refusal .read = none ∧ t.readFile path = .ok bytes) ∧
    (out.1 = .ok false → out.2 = t) ∧
    (∀ e, out.1 = .error e → (out.2.stat path).toOption = (t.stat path).toOption ∨
      Steers (cutLast path).2 ∧ (t.stat path).toOption = none ∧
        (out.2.stat path).toOption = some .directory) ∧
    out.2.current = t.current ∧
    ∀ q, q = t.placeOf path ∧ out.1 = .ok true ∨ out.2.get? q = t.get? q ∨
      t.get? q = none ∧ out.2.get? q = some .directory ∧ q <+: t.placeOf (directory path) := by
  intro out
  have hkept : refusal .read = none ∧ t.readFile path = .ok bytes → out.1 = .ok false := by
    rintro ⟨hread, hheld⟩
    simp only [out, replace, hread, hheld, if_true]
  rcases hout : out with ⟨result, u⟩
  rw [hout] at hkept
  rcases replace_cases refusal path bytes t with
    ⟨hread, hheld, heq⟩ | ⟨e, heq⟩ | ⟨hdiffered, heq⟩
  · obtain ⟨rfl, rfl⟩ := Prod.mk.inj (hout.symm.trans heq)
    exact ⟨by simp, ⟨fun _ => ⟨hread, hheld⟩, hkept⟩, fun _ => rfl, by simp, rfl,
      fun q => .inr (.inl rfl)⟩
  · obtain ⟨rfl, rfl⟩ := Prod.mk.inj (hout.symm.trans heq)
    exact ⟨by simp, ⟨by simp, hkept⟩, by simp, fun _ _ => .inl rfl, rfl, fun q => .inr (.inl rfl)⟩
  obtain ⟨made, hgrown, ⟨e, hfail⟩ | ⟨v, hwritten, hput⟩⟩ := attempt_cases refusal path bytes t
  · obtain ⟨rfl, rfl⟩ := Prod.mk.inj (hout.symm.trans (heq.trans hfail))
    exact ⟨by simp, ⟨by simp, hkept⟩, by simp, fun _ _ => stat_of_grown ht hgrown, hgrown.current,
      fun q => .inr (hgrown.entries q)⟩
  · obtain ⟨rfl, rfl⟩ := Prod.mk.inj (hout.symm.trans (heq.trans hwritten))
    have hplace : made.placeOf path = t.placeOf path := by rw [placeOf, hgrown.current, placeOf]
    refine ⟨fun _ => ⟨readFile_eq_ok.2 ⟨_, hput.leads⟩, fun hrefused => ?_⟩, ⟨by simp, hkept⟩,
      by simp, by simp, hput.current.trans hgrown.current, fun q => ?_⟩
    · exact hdiffered.resolve_left hrefused
    · by_cases hq : q = t.placeOf path
      · exact .inl ⟨hq, rfl⟩
      · rw [hput.elsewhere q (hplace ▸ hq)]
        exact .inr (hgrown.entries q)

/-- A move that is refused leaves the old file, after the file was written anew beside it. -/
theorem replace_all_or_nothing_unmoved :
    let t : FileTree := ⟨[(["d"], .directory), (["d", "f"], .file "old")], []⟩
    let refusal : Refusal := fun step => if step = .rename then some .exists else none
    t.Closed ∧ (replace refusal "d/f" "new" t).1.toOption = none ∧
      ((replace refusal "d/f" "new" t).2.stat "d/f").toOption = some (.file "old") := by
  intro t refusal
  have hclosed : t.Closed := closed_of_entries (by decide)
  obtain ⟨-, -, -, hfailed, -⟩ := replace_all_or_nothing refusal "d/f" "new" hclosed
  cases hout : (replace refusal "d/f" "new" t).1 with
  | ok changed =>
    have hnone : (replace refusal "d/f" "new" t).1.toOption = none := by decide +kernel
    rw [hout] at hnone
    cases hnone
  | error e =>
    refine ⟨hclosed, rfl, ?_⟩
    rcases hfailed e hout with h | ⟨hsteers, -⟩
    · exact h.trans (by decide +kernel)
    · revert hsteers
      unfold Steers
      decide

/-- A path that ends in a slash is absent before the replacement fails, and then a directory. A read
that calls a file missing lets it be written though it held the bytes. -/
theorem replace_exceptions :
    (let t : FileTree := ⟨[], []⟩
    t.Closed ∧ (replace Refusal.none "n/" "x" t).1.toOption = none ∧
      (t.stat "n/").toOption = none ∧
      ((replace Refusal.none "n/" "x" t).2.stat "n/").toOption = some .directory) ∧
    let t : FileTree := ⟨[(["f"], .file "x")], []⟩
    let refusal : Refusal := fun step => if step = .read then some .noEntry else none
    t.Closed ∧ t.readFile "f" = .ok "x" ∧ (replace refusal "f" "x" t).1.toOption = some true :=
  ⟨⟨closed_of_entries (by decide), by decide +kernel, by decide +kernel, by decide +kernel⟩,
    closed_of_entries (by decide), by decide +kernel, by decide +kernel⟩

end Whole

end Literate.FileTree

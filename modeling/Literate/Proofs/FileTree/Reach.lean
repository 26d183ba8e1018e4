import Literate.Proofs.FileTree.Touch

/-! How far the directories of a path are made. Of the places that they lead to, those become
directories that no file and no long name is on the way to, and the others stay as they are, however
the replacement of the file ends. So what a replacement leaves is known place by place. -/

namespace Literate.FileTree

open Literate.Path

variable {t u : FileTree} {start names : List Text} {name : Text}

theorem Along.of_prefix {P : Option FileNode → Prop} {ps : List Text}
    (h : t.Along P start names) (hps : ps <+: names) : t.Along P start ps :=
  fun qs hne hqs => h qs hne (hqs.trans hps)

theorem Short.of_prefix {ps : List Text} (h : Short names) (hps : ps <+: names) : Short ps :=
  fun name hname => h name (hps.subset hname)

/-- Of the places that names lead to, those that can be directories are, and the others are as they
were. -/
structure Laid (t : FileTree) (start names : List Text) (u : FileTree) : Prop where
  made : ∀ ps, ps <+: names → Short ps → t.Clear start ps → u.Paved start ps
  kept : ∀ ps, ps ≠ [] → ps <+: names → ¬(Short ps ∧ t.Clear start ps) →
    u.get? (start ++ ps) = t.get? (start ++ ps)

namespace Laid

theorem of_paved (hs : Short names) (hc : t.Clear start names) (hp : u.Paved start names) :
    Laid t start names u :=
  ⟨fun _ hps _ _ => hp.of_prefix hps,
    fun _ _ hps h => absurd ⟨hs.of_prefix hps, hc.of_prefix hps⟩ h⟩

theorem of_same (h : ∀ ps, ps <+: names → Short ps → t.Clear start ps → t.Paved start ps) :
    Laid t start names t :=
  ⟨h, fun _ _ _ _ => rfl⟩

theorem stop (h : Laid t start names u) (hg : Grown t u (start ++ names))
    (hblocked : ¬(Short (names ++ [name]) ∧ t.Clear start (names ++ [name]))) :
    Laid t start (names ++ [name]) u := by
  refine ⟨fun ps hps hs hc => ?_, fun ps hne hps hnot => ?_⟩
  · rcases List.prefix_concat_iff.1 hps with rfl | hps
    · exact absurd ⟨hs, hc⟩ hblocked
    · exact h.made ps hps hs hc
  · rcases List.prefix_concat_iff.1 hps with rfl | hps
    · rcases hg.entries (start ++ (names ++ [name])) with hsame | ⟨-, -, hpre⟩
      · exact hsame
      · have hlen := hpre.length_le
        simp only [List.length_append, List.length_singleton] at hlen
        omega
    · exact h.kept ps hne hps hnot

theorem same {v : FileTree} (h : Laid t start names u) (hs : Same u v) :
    Laid t start names v := by
  refine ⟨fun ps hps hshort hc qs hne hqs => ?_, fun ps hne hps hnot => ?_⟩
  · rw [hs.entries]
    exact h.made ps hps hshort hc qs hne hqs
  · rw [hs.entries]
    exact h.kept ps hne hps hnot

end Laid

section Making

variable {path : Text} {paths : List Text} {made : Nat}

theorem makeEach_singleton (refusal : Refusal) (path : Text) (made : Nat) (t : FileTree) :
    (makeEach refusal [path] made t).1 = .ok () ∨
      (makeEach refusal [path] made t).2 = t := by
  simp only [makeEach]
  split
  · exact .inl rfl
  · exact .inr rfl

/-- The last name is made if the others are there, or nothing is. -/
theorem laid_concat
    (habove : Paving t start names (makeEach Refusal.none paths made t))
    (hlaid : Laid t start names (makeEach Refusal.none paths made t).2)
    (hall : Paving t start (names ++ [name]) (makeEach Refusal.none (paths ++ [path]) made t)) :
    Laid t start (names ++ [name]) (makeEach Refusal.none (paths ++ [path]) made t).2 := by
  by_cases hok : (makeEach Refusal.none (paths ++ [path]) made t).1 = .ok ()
  · obtain ⟨hs, hc⟩ := hall.ok_iff.1 hok
    exact .of_paved hs hc (hall.paved hok)
  · have hblocked := fun h => hok (hall.ok_iff.2 h)
    rcases makeEach_concat Refusal.none paths path made t with ⟨e, u, hu, hout⟩ | ⟨u, made', hu, hout⟩
    · rw [hu] at habove hlaid
      rw [hout]
      exact hlaid.stop habove.grown hblocked
    · rw [hout] at hok ⊢
      rw [(makeEach_singleton _ _ _ _).resolve_left hok]
      rw [hu] at habove hlaid
      exact hlaid.stop habove.grown hblocked

variable {rooted : Bool} {ups : Nat} {dirs : List Text}

theorem laid_nil : Laid t start [] t :=
  .of_same fun ps hps _ _ => by
    obtain rfl := List.prefix_nil.1 hps
    exact along_nil t _ _

theorem laid_next {n made : Nat} {path name : Text}
    (hparent : parentWords path = root rooted ++ lane (climbs ups ++ dirs))
    (habove : parentWords path ≠ [] →
      Paving t start dirs (makeEach Refusal.none (directoryChain n (parentWords path)) made t) ∧
        Laid t start dirs (makeEach Refusal.none (directoryChain n (parentWords path)) made t).2)
    (hall : Paving t start (dirs ++ [name])
      (makeEach Refusal.none (directoryChain (n + 1) path) made t)) :
    Laid t start (dirs ++ [name]) (makeEach Refusal.none (directoryChain (n + 1) path) made t).2 := by
  rw [directoryChain_succ] at hall ⊢
  obtain ⟨hpaving, hlaid⟩ := makeEach_above (t := t)
    (P := fun out => Paving t start dirs out ∧ Laid t start dirs out.2) n made path
    (fun hnil => by
      obtain rfl : dirs = [] := by
        cases dirs with
        | nil => rfl
        | cons d dirs => simp [hparent, lane] at hnil
      exact ⟨.of_paved (by simp [Short]) (along_nil t _ _), laid_nil⟩) habove
  exact laid_concat hpaving hlaid hall

theorem laid_lane (n made : Nat) (hdirs : ∀ d ∈ dirs, IsName d) (hn : dirs.length ≤ n)
    (h : Passable (root rooted ++ lane (climbs ups ++ dirs))) :
    Laid t (source rooted ups t.current) dirs (makeEach Refusal.none
      (directoryChain n (root rooted ++ lane (climbs ups ++ dirs))) made t).2 := by
  induction dirs using List.reverseRecOn generalizing n made with
  | nil =>
    rw [List.append_nil] at h ⊢
    rw [makeEach_climbs n made h]
    exact laid_nil
  | append_singleton dirs name ih =>
    have hname := hdirs name (by simp)
    have hbefore : ∀ d ∈ dirs, IsName d := fun d hd => hdirs d (by simp [hd])
    obtain ⟨n, rfl⟩ : ∃ k, n = k + 1 := ⟨n - 1, by simp at hn; omega⟩
    have hparent : parentWords (root rooted ++ lane (climbs ups ++ (dirs ++ [name]))) =
        root rooted ++ lane (climbs ups ++ dirs) := by
      rw [← List.append_assoc, parentWords_lane _ _ hname.ne_nil hname.no_slash]
    refine laid_next hparent (fun hne => ?_) (paving_lane _ made hdirs hn h)
    rw [hparent] at hne ⊢
    have hpass : Passable (root rooted ++ lane (climbs ups ++ dirs)) :=
      h.of_prefix ⟨name ++ [slash], by simp⟩ hne
    have hlen : dirs.length ≤ n := by simpa using hn
    exact ⟨paving_lane n made hbefore hlen hpass, ih n made hbefore hlen hpass⟩

theorem laid_leaf (l : Leaf) (made : Nat) (h : Passable l.text) :
    Laid t (l.origin t.current) (l.dirs ++ [l.name])
      (makeEach Refusal.none (directoryChain l.text.length l.text) made t).2 := by
  have hfuel := length_dirs_lt l
  have hall := paving_leaf (t := t) l made h
  obtain ⟨n, hn⟩ : ∃ n, l.text.length = n + 1 := Nat.exists_eq_add_one_of_ne_zero (by omega)
  rw [hn] at hfuel hall ⊢
  refine laid_next (parentWords_text l) (fun hne => ?_) hall
  rw [parentWords_text] at hne ⊢
  have hpass : Passable l.stem := h.of_prefix ⟨l.name, rfl⟩ hne
  have hlen : l.dirs.length ≤ n := by omega
  exact ⟨paving_lane n made l.dirs_isName hlen hpass, laid_lane n made l.dirs_isName hlen hpass⟩

end Making

/-- A walk that does not find an entry missing has passed all directories that it can. -/
theorem paved_of_walk {dirs rest ps : List Text} (hn : ∀ d ∈ dirs, IsName d)
    (hr : ∃ part ∈ rest, part ≠ [])
    (h : t.walk (.found start .directory) (dirs ++ rest) ≠ .error .noEntry)
    (hps : ps <+: dirs) (hs : Short ps) (hc : t.Clear start ps) : t.Paved start ps := by
  induction dirs generalizing start ps with
  | nil =>
    obtain rfl := List.prefix_nil.1 hps
    exact along_nil t _ _
  | cons d dirs ih =>
    cases ps with
    | nil => exact along_nil t _ _
    | cons p ps =>
      obtain ⟨rfl, htail⟩ := List.cons_prefix_cons.1 hps
      obtain ⟨hfile, hc⟩ := along_cons.1 hc
      have hlen : ¬p.length > nameLimit := Nat.not_lt.2 (hs p (by simp))
      rw [List.cons_append, walk_name (hn p (by simp)), if_neg hlen] at h
      cases hget : t.get? (start ++ [p]) with
      | none =>
        rw [hget] at h
        obtain ⟨part, hpart, hne⟩ := hr
        exact absurd (walk_free_error ⟨part, List.mem_append_right _ hpart, hne⟩) h
      | some node =>
        cases node with
        | file bytes => exact absurd hget (hfile bytes)
        | directory =>
          rw [hget] at h
          exact along_cons.2 ⟨hget, ih (fun d hd => hn d (by simp [hd])) h htail
            (fun name hname => hs name (by simp [hname])) hc⟩

section Write

variable (l : Leaf)

theorem laid_makeDirectories (h : Passable l.text) :
    Laid t (l.origin t.current) l.dirs
      (makeDirectories Refusal.none (directory l.text) t).2 := by
  have hpass := passable_directory l h
  rcases l.directory_cases with ⟨hdirs, hbare, -⟩ | ⟨above, habove, hdirs, horigin⟩
  · rw [hdirs, makeDirectories, find_eq_ok.2 (resolve_bare (t := t) hbare hpass)]
    exact laid_nil
  · rw [habove] at hpass ⊢
    rw [makeDirectories, hdirs, ← horigin]
    split
    next place hfind =>
      obtain ⟨hfits, hpaved, rfl, hget⟩ := (find_leaf above).1 hfind
      have hall := paved_concat.2 ⟨hpaved, hget⟩
      exact .of_paved hfits.short hall.clear hall
    next place bytes hfind =>
      obtain ⟨-, hpaved, rfl, hget⟩ := (find_leaf above).1 hfind
      refine .of_same fun ps hps _ hc => ?_
      rcases List.prefix_concat_iff.1 hps with rfl | hps
      · exact absurd hget ((clear_concat.1 hc).2 bytes)
      · exact hpaved.of_prefix hps
    next => exact laid_leaf above 0 hpass

/-- Whatever becomes of the file, the directories of its path are laid. -/
theorem laid_overwrite (h : Passable l.text) (bytes : Text) :
    Laid t (l.origin t.current) l.dirs (overwrite l.text bytes t).2 := by
  have hlaid := laid_makeDirectories (t := t) l h
  rcases overwrite_same (t := t) l h bytes with ⟨hw, u, hu, hput⟩ | ⟨hw, e, u, hu, hsame⟩
  · rw [hu]
    exact .of_paved (short_concat.1 hw.fits.short).1 hw.clear hput.paved
  · rw [hu]
    exact hlaid.same hsame

theorem laid_writeIfChanged (h : Passable l.text) (bytes : Text) :
    Laid t (l.origin t.current) l.dirs (writeIfChanged l.text bytes t).2 := by
  have hstays : t.resolve l.text ≠ .error .noEntry →
      Laid t (l.origin t.current) l.dirs t := by
    intro hres
    rw [resolve_leaf l h] at hres
    exact .of_same fun ps => paved_of_walk l.dirs_isName l.exists_ne_nil hres
  rw [writeIfChanged_eq]
  cases hread : t.readFile l.text with
  | ok held =>
    dsimp only
    split
    · refine hstays fun hres => ?_
      rw [readFile_error hres] at hread
      cases hread
    · exact laid_overwrite l h bytes
  | error e =>
    dsimp only
    split
    · exact laid_overwrite l h bytes
    next hcause =>
      refine hstays fun hres => ?_
      rw [readFile_error hres] at hread
      cases hread
      exact hcause rfl

end Write

section Places

variable {path bytes : Text} {q : List Text}

theorem prefix_source (rooted : Bool) (ups : Nat) (start : List Text) :
    source rooted ups start <+: start := by
  induction ups with
  | zero =>
    cases rooted with
    | true => exact List.nil_prefix
    | false => exact List.prefix_rfl
  | succ ups ih =>
    have hclimbs : climbs (ups + 1) = climbs ups ++ [(".." : Text)] := List.replicate_succ' ..
    have hlast : ∀ place : List Text, climb place ".." = place.dropLast := fun _ => rfl
    rw [source, hclimbs, List.foldl_append, List.foldl_cons, List.foldl_nil, hlast]
    exact (List.dropLast_prefix _).trans ih

theorem WellPlaced.origin (ht : t.WellPlaced) (l : Leaf) (hq : q <+: l.origin t.current) :
    t.get? q = some .directory :=
  ht.directories q (hq.trans (prefix_source _ _ _))

theorem prefix_append_cases {as bs : List Text} (h : q <+: as ++ bs) :
    q <+: as ∨ ∃ ps, ps ≠ [] ∧ ps <+: bs ∧ q = as ++ ps := by
  rcases Nat.lt_or_ge as.length q.length with hlen | hlen
  · obtain ⟨ps, rfl⟩ := List.prefix_of_prefix_length_le (List.prefix_append as bs) h (by omega)
    refine .inr ⟨ps, fun hnil => ?_, (List.prefix_append_right_inj as).1 h, rfl⟩
    simp [hnil] at hlen
  · exact .inl (List.prefix_of_prefix_length_le h (List.prefix_append as bs) hlen)

/-- The place is one that the directories of a path lead to, past no file and no long name. -/
def Reached (t : FileTree) (path : Text) (q : List Text) : Prop :=
  ∃ (l : Leaf) (ps : List Text), path = l.text ∧ Passable path ∧ ps ≠ [] ∧ ps <+: l.dirs ∧
    q = l.origin t.current ++ ps ∧ Short ps ∧ t.Clear (l.origin t.current) ps

theorem get?_reached (h : t.Reached path q) (bytes : Text) :
    (writeIfChanged path bytes t).2.get? q = some .directory := by
  obtain ⟨l, ps, rfl, hpass, hne, hps, rfl, hs, hc⟩ := h
  exact (laid_writeIfChanged l hpass bytes).made ps hps hs hc ps hne List.prefix_rfl

theorem get?_unreached (hp : IsJoined path) (ht : t.WellPlaced) (hq : q ≠ t.placeOf path)
    (h : ¬t.Reached path q) (bytes : Text) :
    (writeIfChanged path bytes t).2.get? q = t.get? q := by
  rcases (touched_writeIfChanged hp bytes).elsewhere q (by simpa using hq) with
    hsame | ⟨hnone, hdir, place, hplace, hpre⟩
  · exact hsame
  obtain rfl := List.mem_singleton.1 hplace
  rcases hp with rfl | hbare | ⟨l, rfl⟩
  · obtain ⟨e, hnil⟩ := writeIfChanged_nil bytes
    obtain ⟨u, hout, hsame⟩ := hnil t
    rw [hout]
    exact hsame.entries q
  · obtain ⟨e, hout⟩ := writeIfChanged_bare hbare bytes
    rw [hout]
  · by_cases hpass : Passable l.text
    swap
    · obtain ⟨cause, hres, hcause⟩ := resolve_of_not_passable l.text_ne_nil hpass
      rw [writeIfChanged_eq, readFile_error (hres t)]
      simp only [if_neg hcause]
    have hlaid := laid_writeIfChanged (t := t) l hpass bytes
    rw [placeOf_leaf] at hpre hq
    have hpre := (List.prefix_concat_iff.1 hpre).resolve_left hq
    rcases prefix_append_cases hpre with horigin | ⟨ps, hne, hps, rfl⟩
    · rw [ht.origin l horigin] at hnone
      cases hnone
    · exact hlaid.kept ps hne hps fun hall => h ⟨l, ps, rfl, hpass, hne, hps, rfl, hall⟩

open scoped Classical in
/-- Away from the place of the path there are new directories, and nothing else. -/
theorem get?_elsewhere (hp : IsJoined path) (ht : t.WellPlaced) (hq : q ≠ t.placeOf path)
    (bytes : Text) : (writeIfChanged path bytes t).2.get? q =
      if t.Reached path q then some .directory else t.get? q := by
  split
  next h => exact get?_reached h bytes
  next h => exact get?_unreached hp ht hq h bytes

/-- The place of a path holds the bytes afterwards, or what it held before. -/
theorem get?_target (hp : IsJoined path) (bytes : Text) :
    (writeIfChanged path bytes t).2.get? (t.placeOf path) =
      if (writeIfChanged path bytes t).1.toOption.isSome then some (.file bytes)
      else t.get? (t.placeOf path) := by
  have hcurrent := (touched_writeIfChanged (t := t) hp bytes).current
  have hout := outcome_writeIfChanged (t := t) hp bytes
  generalize writeIfChanged path bytes t = out at hcurrent hout ⊢
  cases hout with
  | kept held => exact get?_of_readFile hp held
  | written differed vacant holds spares =>
    have hget := get?_of_readFile hp holds
    rwa [placeOf, hcurrent] at hget
  | refused differed same spares => exact same

/-- What can be reached does not depend on directories that are there already. -/
theorem Alike.reached_iff (h : Alike t u (t.placeOf path)) :
    u.Reached path q ↔ t.Reached path q := by
  refine exists₂_congr fun l ps => ?_
  rw [h.current]
  refine and_congr_right fun hl => ?_
  subst hl
  refine and_congr_right fun _ => and_congr_right fun _ => and_congr_right fun hps => ?_
  rw [h.clear_iff hps]

theorem readFile_leads (ht : t.WellPlaced) (hp : IsJoined path) (hread : t.readFile path = .ok bytes)
    (hq : q <+: t.placeOf path) (hne : q ≠ t.placeOf path) : t.get? q = some .directory := by
  rcases hp with rfl | hbare | ⟨l, rfl⟩
  · rw [readFile_nil] at hread
    cases hread
  · obtain ⟨e, herror, -⟩ := readFile_bare hbare
    rw [herror] at hread
    cases hread
  · obtain ⟨-, hpaved, -⟩ := (readFile_leaf l).1 hread
    rw [placeOf_leaf] at hq hne
    rcases prefix_append_cases ((List.prefix_concat_iff.1 hq).resolve_left hne) with
      horigin | ⟨ps, hps, hpre, rfl⟩
    · exact ht.origin l horigin
    · exact hpaved ps hps hpre

theorem readFile_written (hp : IsJoined path)
    (h : (writeIfChanged path bytes t).1.toOption.isSome) :
    (writeIfChanged path bytes t).2.readFile path = .ok bytes := by
  have hout := outcome_writeIfChanged (t := t) hp bytes
  generalize writeIfChanged path bytes t = out at h hout ⊢
  cases hout with
  | kept held => exact held
  | written differed vacant holds spares => exact holds
  | refused differed same spares => simp [Except.toOption] at h

/-- A tree in which every entry is in a directory, and so is the current one. -/
structure Sound (t : FileTree) : Prop where
  closed : t.Closed
  placed : t.WellPlaced

theorem Sound.writeIfChanged (ht : t.Sound) (hp : IsJoined path) (bytes : Text) :
    (writeIfChanged path bytes t).2.Sound := by
  have htouched := touched_writeIfChanged (t := t) hp bytes
  have hplaced := htouched.wellPlaced ht.placed
  refine ⟨fun place part hsome => ?_, hplaced⟩
  by_cases htarget : place ++ [part] = t.placeOf path
  · have hget := get?_target (t := t) hp bytes
    rw [htarget, hget] at hsome
    split at hsome
    next hok =>
      have hsame := htouched.placeOf path
      refine readFile_leads hplaced hp (readFile_written hp hok) ?_ ?_ <;> rw [hsame, ← htarget]
      · exact List.prefix_append _ _
      · simp
    · rw [← htarget] at hsome
      exact htouched.directories _ (ht.closed place part hsome)
  · by_cases hreached : t.Reached path (place ++ [part])
    · obtain ⟨l, ps, rfl, hpass, hne, hps, hplace, hs, hc⟩ := hreached
      obtain ⟨qs, last, rfl⟩ := (List.eq_nil_or_concat' ps).resolve_left hne
      obtain rfl : place = l.origin t.current ++ qs := by
        rw [← List.append_assoc] at hplace
        exact (List.append_inj' hplace rfl).1
      by_cases hnil : qs = []
      · refine htouched.directories _ (ht.placed.origin l ?_)
        rw [hnil, List.append_nil]
      · have hpre : qs <+: qs ++ [last] := List.prefix_append _ _
        exact get?_reached ⟨l, qs, rfl, hpass, hnil, hpre.trans hps, rfl, hs.of_prefix hpre,
          hc.of_prefix hpre⟩ bytes
    · rw [get?_unreached hp ht.placed htarget hreached] at hsome
      exact htouched.directories _ (ht.closed place part hsome)

end Places

end Literate.FileTree

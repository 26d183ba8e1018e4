import Literate.Proofs.Build.Footprint

/-! A build in two stages. To tangle and weave a web at once is to tangle it and then to weave it in a
second build that loads it again, as long as no output file is at, above or below a path that the
load looks at. -/

namespace Literate.Build

open FileTree (Touched Separate Closed)

variable {site : Site} {t : FileTree} {path : Text} {w : Web}

/-- The same site, where webs are only tangled. -/
def Site.tangling (site : Site) : Site :=
  { site with settings := { site.settings with skipWeave := true } }

/-- The same site, where webs are only woven. -/
def Site.weaving (site : Site) : Site :=
  { site with settings := { site.settings with skipTangle := true } }

theorem load_tangling : load site.tangling t path = load site t path := rfl

theorem load_weaving : load site.weaving t path = load site t path := rfl

/-- The paths of the output chunks of the web at a path. -/
def targets (site : Site) (t : FileTree) (path : Text) : List Text :=
  match (load site t path).1 with
  | .error _ => []
  | .ok loaded => loaded.web.files.map fun i =>
      Path.join (outputDir site.settings path) (loaded.web.chunk i).path

/-- The path of the document of a web. -/
def document? (site : Site) (path : Text) : Option Text :=
  (Weave.markup? site.settings.markup).map fun m =>
    Weave.targetPath m site.settings.outputDir path

theorem path_of_mem_writes {confined : Bool} {off : Cancellation} {file : Text × Text}
    (h : file ∈ writes site t path confined off) :
    file.1 ∈ targets site t path ++ (document? site path).toList := by
  obtain ⟨loaded, hload, -, hwrites⟩ := writes_of_mem h
  have hpath := path_load hload
  cases hwrites with
  | output tangles file rendered =>
    refine List.mem_append_left _ ?_
    rw [targets, hload, hpath]
    exact List.mem_map.2 ⟨_, file, rfl⟩
  | document weaves markup rendered =>
    refine List.mem_append_right _ ?_
    simp [document?, markup, hpath]

/-- Of the files only those at the paths of output chunks and of the document can change, and nothing
can unless the web is loaded without syntax errors. -/
theorem run_spares (site : Site) (t : FileTree) (path : Text) (confined : Bool)
    (off : Cancellation) :
    (∀ q, q ∉ (targets site t path ++ (document? site path).toList).map t.placeOf →
      (run site path confined off t).2.get? q = t.get? q ∨
        t.get? q = none ∧ (run site path confined off t).2.get? q = some .directory) ∧
    ((∀ loaded, (load site t path).1 = .ok loaded → 0 < loaded.errors) →
      (run site path confined off t).2 = t) := by
  constructor
  · intro q hq
    have htouched := touched_run site path confined off t
    refine (htouched.elsewhere q fun hmem => hq ?_).imp_right fun h => ⟨h.1, h.2.1⟩
    obtain ⟨file, hfile, rfl⟩ := List.mem_map.1 hmem
    exact List.mem_map.2 ⟨file.1, path_of_mem_writes hfile, rfl⟩
  · intro h
    rw [tree_run]
    unfold writes
    split
    · rfl
    next loaded hload =>
      rw [if_pos (h loaded hload)]
      rfl

section Summaries

variable {c d : Course}

theorem tangle_document (site : Site) (w : Web) (c : Course) (confined : Bool) :
    (c.tangle site w confined).summary.document = c.summary.document := by
  unfold Course.tangle
  dsimp only
  split <;> rfl

/-- A weave adds to the errors, and nothing that it adds depends on what was done before. -/
theorem weave_adds (site : Site) (w : Web) (htree : d.tree = c.tree) (herrors : d.summary.errors = [])
    (hdocument : d.summary.document = c.summary.document) :
    (c.weave site w).summary.errors = c.summary.errors ++ (d.weave site w).summary.errors ∧
      (c.weave site w).summary.written = c.summary.written ∧
      (c.weave site w).summary.unchanged = c.summary.unchanged ∧
      (c.weave site w).summary.document = (d.weave site w).summary.document := by
  unfold Course.weave
  rw [htree]
  cases Weave.markup? site.settings.markup with
  | none => simp [Course.fail, Course.addError, herrors, hdocument]
  | some m =>
    dsimp only
    rcases Weave.emit m site.settings.outputDir w c.tree with ⟨result, tree, log⟩
    cases result <;> simp [Course.fail, Course.addError, herrors, hdocument]

end Summaries

/-- The course of a build that begins with a loaded web. -/
def Loaded.begin (loaded : Loaded) (t : FileTree) (log : List Log.Record) : Course where
  tree := t
  summary := { lines := loaded.lines, chunks := loaded.web.size, parseErrors := loaded.errors }
  log := log ++ [⟨Log.info, "loaded",
    [("lines", .number loaded.lines), ("chunks", .number loaded.web.size)]⟩]

theorem run_of_load (site : Site) {loaded : Loaded} (confined : Bool) (off : Cancellation)
    (hload : (load site t path).1 = .ok loaded) (herrors : loaded.errors = 0) :
    let c := (phases site loaded.web confined off (loaded.begin t (load site t path).2)).1
    (run site path confined off t).1.summary = c.summary ∧ (run site path confined off t).2 = c.tree := by
  have hpair : load site t path = (.ok loaded, (load site t path).2) := Prod.ext hload rfl
  unfold run
  rw [hpair]
  dsimp only
  rw [if_neg (by simp [herrors])]
  split
  next c phase h =>
    exact ⟨congrArg (·.1.summary) h.symm, congrArg (·.1.tree) h.symm⟩
  next c h =>
    exact ⟨congrArg (·.1.summary) h.symm, congrArg (·.1.tree) h.symm⟩

/-- The load does not look at what is written for output chunks. -/
structure Stageable (site : Site) (t : FileTree) (path : Text) : Prop where
  tangles : site.settings.skipTangle = false
  weaves : site.settings.skipWeave = false
  closed : t.Closed
  placed : t.WellPlaced
  clean : ∀ r ∈ reads site t path, Path.clean r = r
  apart : ∀ target ∈ targets site t path, ∀ r ∈ reads site t path,
    Separate (t.placeOf target) (t.placeOf r)

/-- What two builds one after the other come to, as one build. -/
structure Staged (full first second : Report × FileTree) : Prop where
  errors : full.1.summary.errors = first.1.summary.errors ++ second.1.summary.errors
  written : full.1.summary.written = first.1.summary.written
  unchanged : full.1.summary.unchanged = first.1.summary.unchanged
  document : full.1.summary.document = second.1.summary.document

section Stages

variable (h : Stageable site t path) (confined : Bool)
include h

/-- The tangled files are apart from what is read, so that the web is opened as before. -/
theorem opens_tangled : ∀ r ∈ reads site t path,
    FileTree.Opens t (run site.tangling path confined {} t).2 r := by
  intro r hr
  have htouched := touched_run site.tangling path confined {} t
  refine (htouched.alike h.closed fun w hw => ?_).opens (h.clean r hr)
  obtain ⟨file, hfile, rfl⟩ := List.mem_map.1 hw
  obtain ⟨loaded, hload, -, hwrites⟩ := writes_of_mem hfile
  have hpath := path_load hload
  cases hwrites with
  | output tangles hi rendered =>
    refine h.apart _ ?_ r hr
    rw [targets, show (load site t path).1 = .ok loaded from hload]
    exact List.mem_map.2 ⟨_, hi, by rw [← hpath]; rfl⟩
  | document weaves => cases weaves

theorem load_tangled :
    (load site (run site.tangling path confined {} t).2 path).1.toOption =
        (load site t path).1.toOption ∧
      writes site.weaving (run site.tangling path confined {} t).2 path confined {} =
        writes site.weaving t path confined {} := by
  have htouched := touched_run site.tangling path confined {} t
  have hplaced := htouched.wellPlaced h.placed
  have hopens : ∀ r ∈ reads site.weaving t path,
      FileTree.Opens t (run site.tangling path confined {} t).2 r := opens_tangled h confined
  exact ⟨(load_like h.placed hplaced htouched.current (opens_tangled h confined)).1,
    writes_like h.placed hplaced htouched.current hopens confined {}⟩

theorem tree_staged : (run site path confined {} t).2 =
    (run site.weaving path confined {} (run site.tangling path confined {} t).2).2 := by
  rw [tree_run site.weaving, (load_tangled h confined).2, tree_run, tree_run]
  by_cases hgood : ∃ loaded, (load site t path).1 = .ok loaded ∧ loaded.errors = 0
  · obtain ⟨loaded, hload, herrors⟩ := hgood
    rw [writes_of_load site confined hload herrors,
      writes_of_load site.tangling confined hload herrors,
      writes_of_load site.weaving confined hload herrors]
    have htangled : tangled site.tangling loaded.web confined ++ woven site.tangling loaded.web =
        tangled site loaded.web confined := List.append_nil _
    rw [htangled]
    exact List.foldl_append
  · have hnone : ∀ site' : Site, (load site' t path).1 = (load site t path).1 →
        writes site' t path confined {} = [] := by
      intro site' hload'
      refine List.eq_nil_iff_forall_not_mem.2 fun file hfile => hgood ?_
      obtain ⟨loaded, hload, herrors, -⟩ := writes_of_mem hfile
      exact ⟨loaded, hload' ▸ hload, herrors⟩
    rw [hnone site rfl, hnone site.tangling rfl, hnone site.weaving rfl]
    rfl

theorem summary_staged {loaded : Loaded} (hload : (load site t path).1 = .ok loaded)
    (herrors : loaded.errors = 0) :
    Staged (run site path confined {} t) (run site.tangling path confined {} t)
      (run site.weaving path confined {} (run site.tangling path confined {} t).2) := by
  let u := (run site.tangling path confined {} t).2
  let log := (load site t path).2
  have hload' : (load site u path).1 = .ok loaded := by
    rcases toOption_cases (load_tangled h confined).1 with ⟨e, e', he, -⟩ | ⟨loaded', hl, hl'⟩
    · rw [hload] at he
      cases he
    · rwa [hload.symm.trans hl]
  let c := (loaded.begin t (load site t path).2).tangle site loaded.web confined
  let d := loaded.begin u (load site u path).2
  obtain ⟨hfull, -⟩ := run_of_load site confined {} hload herrors
  obtain ⟨hfirst, htree⟩ := run_of_load site.tangling confined {} hload herrors
  obtain ⟨hsecond, -⟩ := run_of_load site.weaving confined {} hload' herrors
  have hboth : (phases site loaded.web confined {} (loaded.begin t (load site t path).2)).1 =
      c.weave site loaded.web := by
    simp [phases, h.tangles, h.weaves, c]
  have htangle : (phases site.tangling loaded.web confined {}
      (loaded.begin t (load site t path).2)).1 = c := by
    simp only [phases, Site.tangling, h.tangles]
    rfl
  have hweave : (phases site.weaving loaded.web confined {} d).1 = d.weave site loaded.web := by
    simp only [phases, Site.weaving, h.weaves]
    rfl
  rw [hboth] at hfull
  rw [load_tangling, htangle] at hfirst htree
  rw [load_weaving, hweave] at hsecond
  have hblank : d.summary.document = c.summary.document :=
    (tangle_document site loaded.web (loaded.begin t _) confined).symm
  obtain ⟨herrors, hwritten, hunchanged, hdocument⟩ :=
    weave_adds site loaded.web htree rfl hblank
  exact ⟨by rw [hfull, hfirst, hsecond, herrors], by rw [hfull, hfirst, hwritten],
    by rw [hfull, hfirst, hunchanged], by rw [hfull, hsecond, hdocument]⟩

end Stages

/-- To tangle and weave a web is to tangle it and then to weave it, if the load does not look at what
is tangled; and in any case nothing is written for a web that is not loaded without syntax errors,
and no file changes but those of its output chunks and its document. -/
theorem run_stages (site : Site) (t : FileTree) (path : Text) (confined : Bool) :
    (Stageable site t path →
      let first := run site.tangling path confined {} t
      let second := run site.weaving path confined {} first.2
      (run site path confined {} t).2 = second.2 ∧
        ∀ loaded, (load site t path).1 = .ok loaded → loaded.errors = 0 →
          Staged (run site path confined {} t) first second) ∧
    ∀ off : Cancellation,
      (∀ q, q ∉ (targets site t path ++ (document? site path).toList).map t.placeOf →
        (run site path confined off t).2.get? q = t.get? q ∨
          t.get? q = none ∧ (run site path confined off t).2.get? q = some .directory) ∧
      ((∀ loaded, (load site t path).1 = .ok loaded → 0 < loaded.errors) →
        (run site path confined off t).2 = t) :=
  ⟨fun h => ⟨tree_staged h confined, fun _ hload herrors => summary_staged h confined hload herrors⟩,
    run_spares site t path confined⟩

/-- A web that includes a source, with a new output file and one that cannot be rendered. -/
def included : FileTree :=
  ⟨[(["w"], .directory), (["w", "m.w"], .file "@i a\n@o out/b @{x@<n@>@}\n@o c @{@<u@>@}\n"),
    (["w", "a"], .file "@d n @{y@}\n")], ["w"]⟩

theorem run_stages_included :
    let site : Site := { settings := {}, version := "1" }
    let first := run site.tangling "m.w" false {} included
    let second := run site.weaving "m.w" false {} first.2
    Stageable site included "m.w" ∧ reads site included "m.w" = ["m.w", "a"] ∧
      (load site included "m.w").1.toOption.map (·.errors) = some 0 ∧
      first.1.status = .partly ∧ second.1.status = .completed ∧
      (run site "m.w" false {} included).2 = second.2 ∧
      Staged (run site "m.w" false {} included) first second := by
  intro site first second
  have htargets : targets site included "m.w" = ["out/b", "c"] := by decide +kernel
  have hreads : reads site included "m.w" = ["m.w", "a"] := by decide +kernel
  have hload : (load site included "m.w").1.toOption.map (·.errors) = some 0 := by decide +kernel
  have hstageable : Stageable site included "m.w" := by
    refine ⟨rfl, rfl, FileTree.closed_of_entries (by decide),
      FileTree.wellPlaced_of_inits (by decide) (by decide), ?_, ?_⟩
    · rw [hreads]
      decide
    · rw [hreads, htargets]
      decide
  obtain ⟨loaded, hloaded, herrors⟩ : ∃ loaded, (load site included "m.w").1 = .ok loaded ∧
      loaded.errors = 0 := by
    cases hl : (load site included "m.w").1 with
    | error e => simp [hl, Except.toOption] at hload
    | ok loaded => exact ⟨loaded, rfl, by simpa [hl, Except.toOption] using hload⟩
  obtain ⟨htree, hstaged⟩ := (run_stages site included "m.w" false).1 hstageable
  exact ⟨hstageable, hreads, hload, by decide +kernel, by decide +kernel, htree,
    hstaged loaded hloaded herrors⟩

/-- A web with an output file at its own place. -/
def overwritten : FileTree :=
  ⟨[(["w"], .directory), (["w", "m.w"], .file "@o ../w/m.w @{gone@}\n")], ["w"]⟩

/-- It is not enough that the path of the output file differs from that of the web and that neither
goes on from the other. -/
theorem run_stages_overwritten :
    let site : Site := { settings := {}, version := "1" }
    let first := run site.tangling "m.w" false {} overwritten
    let second := run site.weaving "m.w" false {} first.2
    overwritten.Closed ∧ overwritten.WellPlaced ∧
      (∀ r ∈ reads site overwritten "m.w", Path.clean r = r ∧
        ∀ target ∈ targets site overwritten "m.w", Path.clean target = target ∧ target ≠ r ∧
          ¬target ++ [Path.slash] <+: r ∧ ¬r ++ [Path.slash] <+: target) ∧
      (run site "m.w" false {} overwritten).2.readFile "m.rst" ≠ second.2.readFile "m.rst" := by
  intro site first second
  exact ⟨FileTree.closed_of_entries (by decide),
    FileTree.wellPlaced_of_inits (by decide) (by decide), by decide +kernel,
    by decide +kernel⟩

end Literate.Build

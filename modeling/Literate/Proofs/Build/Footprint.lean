import Literate.Build
import Literate.Proofs.Reader.Footprint
import Literate.Proofs.Tangle.Deposits

/-! What a build reads and what it writes. It reads its web and the paths of the includes; what it
writes is then settled, one file after the other, whatever else is in the tree. -/

namespace Literate

open FileTree (Opens Touched IsJoined isJoined_join writeAll writeIfChanged)

namespace Tangle

/-- The output files of a web with their code, those that have one. -/
def outputs (w : Web) (o : EmitOptions) : List (Text × Text) :=
  w.files.filterMap fun i => (codeOf w o i).toOption.map fun code => (outputPath w o i, code)

theorem tree_emit (w : Web) (o : EmitOptions) (t : FileTree) :
    (emit w o t).tree = t.writeAll (outputs w o) := by
  rw [(emit_tells w o t).2, outputs]
  induction w.files generalizing t with
  | nil => rfl
  | cons i is ih =>
    rw [List.foldl_cons, ih, deposit]
    cases h : codeOf w o i <;> simp [h, Except.toOption, FileTree.writeAll]

theorem mem_outputs_of_code {w : Web} {o : EmitOptions} {i : Nat} {code : Text} (hi : i ∈ w.files)
    (h : codeOf w o i = .ok code) : (outputPath w o i, code) ∈ outputs w o :=
  List.mem_filterMap.2 ⟨i, hi, by rw [h]; rfl⟩

theorem mem_outputs {w : Web} {o : EmitOptions} {file : Text × Text} (h : file ∈ outputs w o) :
    ∃ i ∈ w.files, codeOf w o i = .ok file.2 ∧ file.1 = outputPath w o i := by
  obtain ⟨i, hi, hfile⟩ := List.mem_filterMap.1 h
  obtain ⟨code, hcode, rfl⟩ := Option.map_eq_some_iff.1 hfile
  refine ⟨i, hi, ?_, rfl⟩
  cases hc : codeOf w o i with
  | error f => simp [hc, Except.toOption] at hcode
  | ok c => simpa [hc, Except.toOption] using hcode

end Tangle

namespace Weave

/-- The document of a web, if it can be rendered. -/
def outputs (m : Markup) (dir : Text) (w : Web) : List (Text × Text) :=
  match (render m w).1 with
  | .ok doc => [(targetPath m dir w.path, doc)]
  | .error _ => []

theorem tree_emit (m : Markup) (dir : Text) (w : Web) (t : FileTree) :
    (emit m dir w t).2.1 = t.writeAll (outputs m dir w) := by
  unfold emit outputs
  rcases render m w with ⟨result, log⟩
  cases result with
  | error e => rfl
  | ok doc =>
    simp only [writeAll, List.foldl_cons, List.foldl_nil]
    rcases writeIfChanged (targetPath m dir w.path) doc t with ⟨outcome, u⟩
    rcases outcome with e | _ | _ <;> rfl

theorem mem_outputs {m : Markup} {dir : Text} {w : Web} {file : Text × Text}
    (h : file ∈ outputs m dir w) :
    (render m w).1 = .ok file.2 ∧ file.1 = targetPath m dir w.path := by
  unfold outputs at h
  split at h
  next doc hdoc =>
    obtain rfl := List.mem_singleton.1 h
    exact ⟨hdoc, rfl⟩
  · cases h

end Weave

namespace Build

variable (site : Site) (t u : FileTree) (path : Text) (w : Web) (confined : Bool) (off : Cancellation)

/-- The paths that are tried for includes when the web at a path is loaded. -/
def tried : List Text :=
  match t.readFile path with
  | .error _ => []
  | .ok bytes => Reader.tried site.readerOptions t path ⟨bytes, none⟩

/-- All that is opened for the web at a path, or tried to. -/
def reads : List Text := path :: tried site t path

def tangleOptions : Tangle.EmitOptions :=
  ⟨outputDir site.settings w.path, site.settings.lineNumbers, confined⟩

def tangled : List (Text × Text) :=
  if site.settings.skipTangle then [] else Tangle.outputs w (tangleOptions site w confined)

def woven : List (Text × Text) :=
  if site.settings.skipWeave then []
  else match Weave.markup? site.settings.markup with
    | none => []
    | some m => Weave.outputs m site.settings.outputDir w

/-- The files that the phases write, each with its bytes. -/
def outputs : List (Text × Text) :=
  if !site.settings.skipTangle && off.beforeTangle then []
  else tangled site w confined ++ if off.beforeWeave then [] else woven site w

/-- The files that the build of the web at a path writes. -/
def writes : List (Text × Text) :=
  match (load site t path).1 with
  | .error _ => []
  | .ok loaded => if loaded.errors > 0 then [] else outputs site loaded.web confined off

variable {site t u path w confined off}

theorem tree_tangle (c : Course) : (c.tangle site w confined).tree =
    c.tree.writeAll (Tangle.outputs w (tangleOptions site w confined)) := by
  rw [← Tangle.tree_emit]
  unfold Course.tangle
  dsimp only
  split <;> rfl

theorem tree_weave (c : Course) (hskip : site.settings.skipWeave = false) :
    (c.weave site w).tree = c.tree.writeAll (woven site w) := by
  unfold Course.weave woven
  rw [hskip, if_neg (by simp)]
  cases Weave.markup? site.settings.markup with
  | none => rfl
  | some m =>
    have htree := Weave.tree_emit m site.settings.outputDir w c.tree
    dsimp only
    rcases hout : Weave.emit m site.settings.outputDir w c.tree with ⟨result, tree, log⟩
    rw [hout] at htree
    cases result <;> exact htree

theorem tree_phases (c : Course) : (phases site w confined off c).1.tree =
    c.tree.writeAll (outputs site w confined off) := by
  unfold phases outputs
  dsimp only
  split
  · rfl
  · have htangle : (if site.settings.skipTangle then c else c.tangle site w confined).tree =
        c.tree.writeAll (tangled site w confined) := by
      unfold tangled
      split
      · rfl
      · exact tree_tangle c
    have happend : ∀ files files', c.tree.writeAll (files ++ files') =
        (c.tree.writeAll files).writeAll files' := fun _ _ => List.foldl_append ..
    by_cases hskip : site.settings.skipWeave = true
    · simp [woven, hskip, htangle]
    · rw [if_neg hskip, happend, ← htangle]
      split
      · rfl
      · exact tree_weave _ (by simpa using hskip)

/-- The tree after a build is the tree before it with the files written in turn. -/
theorem tree_run (site : Site) (path : Text) (confined : Bool) (off : Cancellation) (t : FileTree) :
    (run site path confined off t).2 = t.writeAll (writes site t path confined off) := by
  unfold run writes
  rcases load site t path with ⟨result, log⟩
  cases result with
  | error e => rfl
  | ok loaded =>
    dsimp only
    split
    · rfl
    · split
      next c phase h => exact (congrArg (·.1.tree) h).symm.trans (tree_phases _)
      next c h => exact (congrArg (·.1.tree) h).symm.trans (tree_phases _)

theorem writes_of_load (site : Site) (confined : Bool) {loaded : Loaded}
    (hload : (load site t path).1 = .ok loaded) (herrors : loaded.errors = 0) :
    writes site t path confined {} = tangled site loaded.web confined ++ woven site loaded.web := by
  simp [writes, hload, herrors, outputs]

theorem path_load {loaded : Loaded} (h : (load site t path).1 = .ok loaded) :
    loaded.web.path = path := by
  unfold load at h
  split at h
  · cases h
  · cases h
    rfl

/-- How a path comes to be written: as that of an output chunk with code, or as the document's. -/
inductive Writes (site : Site) (w : Web) (confined : Bool) : Text × Text → Prop where
  | output {i : Nat} {code : Text} (tangles : site.settings.skipTangle = false) (file : i ∈ w.files)
      (rendered : Tangle.codeOf w (tangleOptions site w confined) i = .ok code) :
      Writes site w confined (Path.join (outputDir site.settings w.path) (w.chunk i).path, code)
  | document {m : Weave.Markup} {doc : Text} (weaves : site.settings.skipWeave = false)
      (markup : Weave.markup? site.settings.markup = some m)
      (rendered : (Weave.render m w).1 = .ok doc) :
      Writes site w confined (Weave.targetPath m site.settings.outputDir w.path, doc)

theorem writes_of_mem_tangled {file : Text × Text} (h : file ∈ tangled site w confined) :
    Writes site w confined file := by
  unfold tangled at h
  split at h
  · cases h
  next hskip =>
    obtain ⟨path, code⟩ := file
    obtain ⟨i, hi, hcode, rfl⟩ := Tangle.mem_outputs h
    exact .output (by simpa using hskip) hi hcode

theorem writes_of_mem_woven {file : Text × Text} (h : file ∈ woven site w) :
    Writes site w confined file := by
  unfold woven at h
  split at h
  · cases h
  next hskip =>
    split at h
    · cases h
    next m hm =>
      obtain ⟨path, doc⟩ := file
      obtain ⟨hdoc, rfl⟩ := Weave.mem_outputs h
      exact .document (by simpa using hskip) hm hdoc

theorem writes_of_mem {file : Text × Text} (h : file ∈ writes site t path confined off) :
    ∃ loaded, (load site t path).1 = .ok loaded ∧ loaded.errors = 0 ∧
      Writes site loaded.web confined file := by
  unfold writes at h
  split at h
  · cases h
  next loaded hload =>
    split at h
    · cases h
    next herrors =>
      refine ⟨loaded, hload, Nat.eq_zero_of_not_pos herrors, ?_⟩
      unfold outputs at h
      split at h
      · cases h
      · rcases List.mem_append.1 h with h | h
        · exact writes_of_mem_tangled h
        · split at h
          · cases h
          · exact writes_of_mem_woven h

theorem Writes.isJoined {file : Text × Text} (h : Writes site w confined file) :
    IsJoined file.1 := by
  cases h with
  | output => exact isJoined_join _ _
  | document => exact isJoined_join _ _

theorem isJoined_of_mem {file : Text × Text} (h : file ∈ writes site t path confined off) :
    IsJoined file.1 := by
  obtain ⟨_, _, _, hwrites⟩ := writes_of_mem h
  exact hwrites.isJoined

theorem touched_run (site : Site) (path : Text) (confined : Bool) (off : Cancellation)
    (t : FileTree) : Touched t (run site path confined off t).2
      ((writes site t path confined off).map fun file => t.placeOf file.1) := by
  rw [tree_run]
  exact FileTree.touched_writeAll fun _ h => isJoined_of_mem h

section Load

variable (ht : t.WellPlaced) (hu : u.WellPlaced) (hcurrent : u.current = t.current)
  (h : ∀ r ∈ reads site t path, Opens t u r)
include h

theorem readFile_toOption : (u.readFile path).toOption = (t.readFile path).toOption := by
  unfold FileTree.readFile
  rcases (h path (by simp [reads])).cases with ⟨e, e', he, he'⟩ | ⟨node, hn, hn'⟩
  · rw [he, he']
    rfl
  · rw [hn, hn']

include ht hu hcurrent

/-- A web is loaded alike from trees that open the same at what is read for it. -/
theorem load_like : (load site u path).1.toOption = (load site t path).1.toOption ∧
    tried site u path = tried site t path := by
  have hread := readFile_toOption h
  unfold load tried
  rcases toOption_cases hread with ⟨e, e', hb, hb'⟩ | ⟨bytes, hb, hb'⟩
  · rw [hb, hb']
    exact ⟨rfl, rfl⟩
  · have htried : ∀ r ∈ Reader.tried site.readerOptions t path ⟨bytes, none⟩, Opens t u r :=
      fun r hr => h r (by simp [reads, tried, hb, hr])
    obtain ⟨⟨hchunks, herrors, hlines⟩, hsame⟩ :=
      Reader.load_like site.readerOptions ht hu hcurrent path ⟨bytes, none⟩ htried
    simp only [hb, hb', hchunks, herrors, hlines]
    exact ⟨trivial, hsame⟩

theorem writes_like (confined : Bool) (off : Cancellation) :
    writes site u path confined off = writes site t path confined off := by
  unfold writes
  rcases toOption_cases (load_like ht hu hcurrent h).1 with ⟨e, e', hl, hl'⟩ | ⟨loaded, hl, hl'⟩
  · rw [hl, hl']
  · rw [hl, hl']

end Load

end Build

end Literate

import Literate.Proofs.FileTree.Outcome

/-! What writing files leaves alone. After files were written at some places nothing else has changed
but free places above them, which may be directories now; and what is opened at a path apart from
these places is the same. -/

namespace Literate

/-- Two results that come to the same but for their errors. -/
theorem toOption_cases {ε α : Type} {a b : Except ε α} (h : b.toOption = a.toOption) :
    (∃ e e', a = .error e ∧ b = .error e') ∨ ∃ x, a = .ok x ∧ b = .ok x := by
  cases a with
  | error e =>
    cases b with
    | error e' => exact .inl ⟨e, e', rfl, rfl⟩
    | ok y => simp [Except.toOption] at h
  | ok x =>
    cases b with
    | error e' => simp [Except.toOption] at h
    | ok y =>
      obtain rfl : y = x := by simpa [Except.toOption] using h
      exact .inr ⟨_, rfl, rfl⟩

namespace FileTree

open Literate.Path

variable {t u v : FileTree}

instance decidableIsName (part : Text) : Decidable (IsName part) :=
  decidable_of_iff (part ≠ [] ∧ part ≠ ("." : Text) ∧ part ≠ (".." : Text) ∧ slash ∉ part)
    ⟨fun ⟨hnil, hdot, hclimb, hslash⟩ => ⟨hnil, hdot, hclimb, hslash⟩,
      fun h => ⟨h.ne_nil, h.ne_dot, h.ne_climb, h.no_slash⟩⟩

theorem wellPlaced_of_inits (hnames : ∀ part ∈ t.current, IsName part)
    (hdirs : ∀ place ∈ t.current.inits, t.get? place = some .directory) : t.WellPlaced :=
  ⟨hnames, fun place hplace => hdirs place ((List.mem_inits place t.current).2 hplace)⟩

/-- Neither place is at or below the other. -/
def Separate (p q : List Text) : Prop := ¬p <+: q ∧ ¬q <+: p

instance decidableSeparate (p q : List Text) : Decidable (Separate p q) :=
  inferInstanceAs (Decidable (¬p <+: q ∧ ¬q <+: p))

theorem Separate.symm {p q : List Text} (h : Separate p q) : Separate q p := ⟨h.2, h.1⟩

/-- One tree is the other after files were written at some places. -/
structure Touched (t u : FileTree) (ws : List (List Text)) : Prop where
  current : u.current = t.current
  directories : ∀ q, t.get? q = some .directory → u.get? q = some .directory
  elsewhere : ∀ q, q ∉ ws → u.get? q = t.get? q ∨
    t.get? q = none ∧ u.get? q = some .directory ∧ ∃ w ∈ ws, q <+: w

namespace Touched

variable {ws vs : List (List Text)}

theorem refl (t : FileTree) (ws : List (List Text)) : Touched t t ws :=
  ⟨rfl, fun _ h => h, fun _ _ => .inl rfl⟩

theorem mono (h : Touched t u ws) (hsub : ws ⊆ vs) : Touched t u vs := by
  refine ⟨h.current, h.directories, fun q hq => ?_⟩
  refine (h.elsewhere q fun hmem => hq (hsub hmem)).imp_right fun ⟨hnone, hdir, w, hw, hpre⟩ => ?_
  exact ⟨hnone, hdir, w, hsub hw, hpre⟩

theorem trans (h : Touched t u ws) (h' : Touched u v ws) : Touched t v ws := by
  refine ⟨h'.current.trans h.current, fun q hq => h'.directories q (h.directories q hq),
    fun q hq => ?_⟩
  rcases h'.elsewhere q hq with hsame | ⟨hnone, hdir, hw⟩
  · rw [hsame]
    exact h.elsewhere q hq
  · rcases h.elsewhere q hq with hsame | ⟨-, hdir', -⟩
    · exact .inr ⟨hsame ▸ hnone, hdir, hw⟩
    · rw [hdir'] at hnone
      cases hnone

theorem placeOf (h : Touched t u ws) (path : Text) : u.placeOf path = t.placeOf path := by
  rw [FileTree.placeOf, h.current, FileTree.placeOf]

theorem wellPlaced (h : Touched t u ws) (ht : t.WellPlaced) : u.WellPlaced := by
  refine ⟨fun part hpart => ht.names part (h.current ▸ hpart), fun place hplace => ?_⟩
  exact h.directories place (ht.directories place (h.current ▸ hplace))

/-- A place apart from those that were written looks the same, and so does what is above it but for
directories. -/
theorem alike (ht : t.Closed) (h : Touched t u ws) {place : List Text}
    (hplace : ∀ w ∈ ws, Separate w place) : Alike t u place := by
  have habove : ∀ q, q <+: place → u.get? q = t.get? q ∨
      t.get? q = none ∧ u.get? q = some .directory ∧ ∃ w ∈ ws, q <+: w :=
    fun q hq => h.elsewhere q fun hmem => (hplace q hmem).1 hq
  refine ⟨h.current, ?_, fun q hq _ => ?_, fun hsome q hq hne => ?_⟩
  · rcases habove _ List.prefix_rfl with hsame | ⟨-, -, w, hw, hpre⟩
    · exact hsame
    · exact absurd hpre (hplace w hw).2
  · exact (habove q hq).imp_right fun h => ⟨h.1, h.2.1⟩
  · rcases habove q hq with hsame | ⟨hnone, -⟩
    · exact hsame
    · rw [ht.above hq hne hsome] at hnone
      cases hnone

end Touched

theorem touched_writeIfChanged {path : Text} (h : IsJoined path) (bytes : Text) :
    Touched t (writeIfChanged path bytes t).2 [t.placeOf path] := by
  have hout := outcome_writeIfChanged (t := t) h bytes
  generalize writeIfChanged path bytes t = out at hout ⊢
  have helse : ∀ u, Spares t u (t.placeOf path) → ∀ q, q ∉ [t.placeOf path] →
      u.get? q = t.get? q ∨ t.get? q = none ∧ u.get? q = some .directory ∧
        ∃ w ∈ [t.placeOf path], q <+: w := by
    intro u hu q hq
    refine (hu.elsewhere q (by simpa using hq)).imp_right fun ⟨hnone, hdir, hpre⟩ => ?_
    exact ⟨hnone, hdir, _, List.mem_singleton_self _, hpre⟩
  have hdirs : ∀ u, Spares t u (t.placeOf path) →
      (t.get? (t.placeOf path) = some .directory → u.get? (t.placeOf path) = some .directory) →
      ∀ q, t.get? q = some .directory → u.get? q = some .directory := by
    intro u hu htarget q hq
    by_cases hne : q = t.placeOf path
    · rw [hne] at hq ⊢
      exact htarget hq
    · rcases hu.elsewhere q hne with hsame | ⟨-, hdir, -⟩
      · rw [hsame, hq]
      · exact hdir
  cases hout with
  | kept held => exact .refl t _
  | written differed vacant holds spares =>
    exact ⟨spares.current, hdirs _ spares fun hdir => absurd hdir vacant, helse _ spares⟩
  | refused differed same spares =>
    exact ⟨spares.current, hdirs _ spares fun hdir => same.trans hdir, helse _ spares⟩

/-- Two trees come to the same when a path is opened. -/
def Opens (t u : FileTree) (path : Text) : Prop :=
  (u.openEntry path).toOption = (t.openEntry path).toOption

theorem Opens.cases {path : Text} (h : Opens t u path) :
    (∃ e e', t.openEntry path = .error e ∧ u.openEntry path = .error e') ∨
      ∃ node, t.openEntry path = .ok node ∧ u.openEntry path = .ok node :=
  toOption_cases h

theorem openEntry_eq_ok {path : Text} {node : FileNode} :
    t.openEntry path = .ok node ↔ ∃ q, t.find path = .ok (q, node) := by
  unfold openEntry
  cases t.find path with
  | error cause => simp
  | ok entry => simp [Prod.ext_iff]

theorem opens_of_iff {path : Text}
    (h : ∀ node, u.openEntry path = .ok node ↔ t.openEntry path = .ok node) : Opens t u path := by
  unfold Opens
  cases ht : t.openEntry path with
  | ok node => rw [(h node).2 ht]
  | error e =>
    cases hu : u.openEntry path with
    | error e' => rfl
    | ok node =>
      rw [(h node).1 hu] at ht
      cases ht

theorem Alike.paved_iff {l : Leaf} (h : Alike t u (t.placeOf l.text))
    (hsome : t.get? (t.placeOf l.text) ≠ none) :
    u.Paved (l.origin t.current) l.dirs ↔ t.Paved (l.origin t.current) l.dirs := by
  refine along_congr fun ps hps => ?_
  obtain ⟨hpre, hne⟩ := way_above t l hps
  rw [h.grounded hsome _ hpre hne]

/-- A clean path is opened alike in trees that are alike above its place. -/
theorem Alike.opens {path : Text} (hclean : clean path = path) (h : Alike t u (t.placeOf path)) :
    Opens t u path := by
  rcases hclean ▸ clean_cases path with hbare | ⟨l, rfl⟩
  · by_cases hpass : Passable path
    · have hfind : ∀ v : FileTree, v.openEntry path = .ok .directory := fun v =>
        openEntry_eq_ok.2 ⟨_, find_eq_ok.2 (resolve_bare hbare hpass)⟩
      rw [Opens, hfind t, hfind u]
    · obtain ⟨cause, hres, -⟩ := resolve_of_not_passable hbare.ne_nil hpass
      simp [Opens, openEntry, find, hres]
  · refine opens_of_iff fun node => ?_
    simp only [openEntry_eq_ok, find_leaf, h.current]
    refine exists_congr fun q => and_congr_right fun _ => ?_
    have htarget := h.target
    rw [placeOf_leaf] at htarget
    constructor
    · rintro ⟨hpaved, rfl, hget⟩
      rw [htarget] at hget
      exact ⟨(h.paved_iff (by simp [placeOf_leaf, hget])).1 hpaved, rfl, hget⟩
    · rintro ⟨hpaved, rfl, hget⟩
      exact ⟨(h.paved_iff (by simp [placeOf_leaf, hget])).2 hpaved, rfl, htarget.trans hget⟩

/-- Writes files one after the other, each with its bytes. -/
def writeAll (files : List (Text × Text)) (t : FileTree) : FileTree :=
  files.foldl (fun t file => (writeIfChanged file.1 file.2 t).2) t

theorem touched_writeAll {files : List (Text × Text)} (h : ∀ file ∈ files, IsJoined file.1) :
    Touched t (writeAll files t) (files.map fun file => t.placeOf file.1) := by
  induction files generalizing t with
  | nil => exact .refl t _
  | cons file files ih =>
    have hfirst := touched_writeIfChanged (t := t) (h file (by simp)) file.2
    have hrest := ih (t := (writeIfChanged file.1 file.2 t).2) fun f hf => h f (by simp [hf])
    simp only [hfirst.placeOf] at hrest
    exact (hfirst.mono (by simp)).trans (hrest.mono (by simp))

end FileTree

end Literate

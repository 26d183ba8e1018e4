import Literate.Proofs.FileTree.Touch
import Literate.Proofs.Reader.Frame
import Literate.Proofs.Reader.Nesting

/-! What a reader looks at. Reading a source tries the paths that its includes lead to, and those of
the sources that it reads in turn. Two trees that open the same at these paths are read alike; only
the words that are logged of a path that cannot be opened may differ. -/

namespace Literate.Reader

open FileTree (Opens)

/-- The same but for the log. -/
structure Outcome.Like (o o' : Outcome) : Prop where
  chunks : o'.chunks = o.chunks
  errors : o'.errors = o.errors
  lines : o'.lines = o.lines

/-- The same but for the log. -/
def State.Like (s s' : State) : Prop := ({ s with log := [] } : State) = { s' with log := [] }

/-- Answers that have the same consequences but for the log. -/
inductive Inclusion.Like : Inclusion → Inclusion → Prop where
  | cycle : Like .cycle .cycle
  | unopened (e e' : FileError) : Like (.unopened e) (.unopened e')
  | read {o o' : Outcome} (like : o.Like o') (failure : Option Text) :
      Like (.read o failure) (.read o' failure)

section Like

variable {s s' s'' : State}

theorem State.Like.refl (s : State) : s.Like s := Eq.refl _

theorem State.Like.trans (h : s.Like s') (h' : s'.Like s'') : s.Like s'' := Eq.trans h h'

/-- What does not look back does not look at the log. -/
theorem State.Like.map (h : s.Like s') {f : State → State}
    (hf : ∀ o s, f (s.after o) = (f s).after o) : (f s).Like (f s') := by
  have hafter : ∀ s : State, f s = (f { s with log := [] }).after ⟨[], 0, 0, s.log⟩ := by
    intro s
    rw [← hf]
    simp [State.after]
  rw [hafter s, hafter s', h]
  rfl

theorem State.Like.outcome (h : s.Like s') : s.outcome.Like s'.outcome := by
  obtain ⟨n, body, before, current, pending, errors, included, log⟩ := s
  obtain ⟨n', body', before', current', pending', errors', included', log'⟩ := s'
  simp only [State.Like, State.mk.injEq] at h
  obtain ⟨rfl, rfl, rfl, rfl, rfl, rfl, rfl, -⟩ := h
  exact ⟨rfl, rfl, rfl⟩

theorem State.Like.request? (h : s.Like s') (t : Token) : request? s t = request? s' t := by
  obtain ⟨-, hbody, -, -, hpending, -⟩ := State.mk.inj h
  simp only [Reader.request?, hpending, hbody]

theorem splice_like (path : Text) (l : Location) {o o' : Outcome} (ho : o.Like o')
    (failure : Option Text) (s : State) :
    (splice path l o failure s).Like (splice path l o' failure s) := by
  obtain ⟨chunks, errors, lines, log⟩ := o
  obtain ⟨chunks', errors', lines', log'⟩ := o'
  obtain ⟨rfl, rfl, rfl⟩ := ho
  unfold splice
  cases failure with
  | none =>
    dsimp only
    split <;> rfl
  | some cause =>
    dsimp only [State.error]
    split <;> rfl

variable {options : Options} {name : Text} {fetch fetch' : Text → Inclusion}

theorem includeFile_like {path : Text} (h : (fetch path).Like (fetch' path)) (l : Location)
    (s : State) :
    (includeFile (options.context name fetch) path l s).Like
      (includeFile (options.context name fetch') path l s) := by
  unfold includeFile
  by_cases hpath : path = []
  · rw [if_pos hpath, if_pos hpath]
    exact .refl _
  · rw [if_neg hpath, if_neg hpath]
    by_cases hbody : s.body ≠ .top
    · rw [if_pos hbody, if_pos hbody]
      exact .refl _
    · rw [if_neg hbody, if_neg hbody]
      simp only [Options.context]
      generalize fetch path = a, fetch' path = a' at h
      cases h with
      | cycle => exact .refl _
      | unopened e e' =>
        obtain ⟨command, permitMissing, substitutions⟩ := options
        cases permitMissing <;> rfl
      | read like failure => exact splice_like path l like failure s

theorem step_like (h : s.Like s') {t : Token}
    (hf : ∀ path ∈ request? s t, (fetch path).Like (fetch' path)) :
    (step (options.context name fetch) s t).Like (step (options.context name fetch') s' t) := by
  have hsame : (step (options.context name fetch') s t).Like
      (step (options.context name fetch') s' t) :=
    h.map (f := (step (options.context name fetch') · t)) fun o s => step_after _ o s t
  refine State.Like.trans ?_ hsame
  cases hreq : request? s t with
  | none =>
    have hanswer : step (options.context name fetch) s t = step (options.context name fetch') s t :=
      step_congr options name (by simp [hreq])
    exact hanswer ▸ .refl _
  | some path =>
    obtain ⟨l, hpending⟩ : ∃ l, s.pending = .includePath l := by
      unfold request? at hreq
      split at hreq
      · split at hreq
        next l hl => exact ⟨l, hl⟩
        · cases hreq
      · cases hreq
    cases t with
    | literal span =>
      have hpath : Text.ofChars (Text.trimChars span) = path := by
        simp only [request?, hpending, Option.ite_none_left_eq_some] at hreq
        exact Option.some.inj hreq.2
      rw [step_path hpending, step_path hpending, hpath]
      exact includeFile_like (hf path (by simp [hreq])) l _
    | newline => simp [request?] at hreq
    | control k => simp [request?] at hreq

end Like

/-- The paths that the steps over tokens ask for, from a state on. -/
def requests (ctx : Context) : State → List Token → List Text
  | _, [] => []
  | s, t :: ts => (request? s t).toList ++ requests ctx (step ctx s t) ts

/-- The path that an include tries to open from a directory, and those that `inner` tries when it
can be opened. -/
def follow (tree : FileTree) (reading : List Text) (dir : Text)
    (inner : List Text → (name dir : Text) → Source → List Text) (path : Text) : List Text :=
  let resolved := resolveInclude dir path
  let absolute := tree.absolute resolved
  if absolute ∈ reading then []
  else resolved :: match tree.openEntry resolved with
    | .error _ => []
    | .ok node =>
      inner (reading ++ [absolute]) path (Path.directory resolved) (Source.ofNode resolved node)

/-- The paths that are tried to open while a source is read. -/
def tries (options : Options) (tree : FileTree) :
    Nat → List Text → (name dir : Text) → Source → List Text
  | 0, _, _, _, _ => []
  | depth + 1, reading, name, dir, source =>
    (requests (options.context name (inclusion tree reading dir (readSource options tree depth))) {}
      (Token.ofText options.command source.bytes)).flatMap
        (follow tree reading dir (tries options tree depth))

variable {options : Options} {name : Text} {fetch fetch' : Text → Inclusion} {t u : FileTree}

theorem requests_like (ts : List Token) {s s' : State} (h : s.Like s')
    (hf : ∀ path ∈ requests (options.context name fetch) s ts, (fetch path).Like (fetch' path)) :
    requests (options.context name fetch') s' ts = requests (options.context name fetch) s ts ∧
      (ts.foldl (step (options.context name fetch)) s).Like
        (ts.foldl (step (options.context name fetch')) s') := by
  induction ts generalizing s s' with
  | nil => exact ⟨rfl, h⟩
  | cons t ts ih =>
    have hstep : (step (options.context name fetch) s t).Like
        (step (options.context name fetch') s' t) :=
      step_like h fun path hpath => hf path (by simp [requests, Option.mem_def.1 hpath])
    obtain ⟨hrequests, hend⟩ := ih hstep fun path hpath => hf path (by simp [requests, hpath])
    rw [requests, requests, hrequests, h.request?]
    exact ⟨rfl, hend⟩

theorem readTokens_like {ts : List Token}
    (hf : ∀ path ∈ requests (options.context name fetch) {} ts, (fetch path).Like (fetch' path)) :
    (readTokens (options.context name fetch) ts).Like
      (readTokens (options.context name fetch') ts) := by
  have hend := (requests_like ts (.refl {}) hf).2
  have hfinish := hend.map fun o s => finish_after (options.context name fetch) o s
  rw [readTokens, readTokens, ← finish_congr options name _ fetch fetch']
  exact hfinish.outcome

theorem absolute_of_current (h : u.current = t.current) (path : Text) :
    u.absolute path = t.absolute path := by
  simp only [FileTree.absolute, h]

/-- An include of a path at which the trees open the same is answered alike, and goes on alike. -/
theorem inclusion_like (hcurrent : u.current = t.current) {reading : List Text} {dir path : Text}
    {inner inner' : List Text → (name dir : Text) → Source → Outcome}
    {tried tried' : List Text → (name dir : Text) → Source → List Text}
    (hopens : ∀ r ∈ follow t reading dir tried path, Opens t u r)
    (hinner : ∀ reading name dir source, (∀ r ∈ tried reading name dir source, Opens t u r) →
      (inner reading name dir source).Like (inner' reading name dir source) ∧
        tried' reading name dir source = tried reading name dir source) :
    (inclusion t reading dir inner path).Like (inclusion u reading dir inner' path) ∧
      follow u reading dir tried' path = follow t reading dir tried path := by
  unfold follow at hopens
  simp only [inclusion, follow, absolute_of_current hcurrent]
  by_cases hr : t.absolute (resolveInclude dir path) ∈ reading
  · simp only [if_pos hr]
    exact ⟨.cycle, trivial⟩
  · simp only [if_neg hr, List.mem_cons] at hopens ⊢
    rcases (hopens _ (.inl rfl)).cases with ⟨e, e', ht, hu⟩ | ⟨node, ht, hu⟩
    · simp only [ht, hu]
      exact ⟨.unopened e e', trivial⟩
    · simp only [ht, hu] at hopens ⊢
      obtain ⟨hlike, htried⟩ := hinner _ _ _ _ fun r hr => hopens r (.inr hr)
      exact ⟨.read hlike _, by rw [htried]⟩

/-- Trees that open the same at what is tried in one of them are read alike, and the same is tried in
the other. -/
theorem readSource_like (hcurrent : u.current = t.current) (depth : Nat) (reading : List Text)
    (name dir : Text) (source : Source)
    (h : ∀ r ∈ tries options t depth reading name dir source, Opens t u r) :
    (readSource options t depth reading name dir source).Like
        (readSource options u depth reading name dir source) ∧
      tries options u depth reading name dir source =
        tries options t depth reading name dir source := by
  induction depth generalizing reading name dir source with
  | zero => exact ⟨⟨rfl, rfl, rfl⟩, rfl⟩
  | succ depth ih =>
    simp only [tries, List.mem_flatMap] at h
    have hanswer := fun path (hpath : path ∈ requests
        (options.context name (inclusion t reading dir (readSource options t depth))) {}
        (Token.ofText options.command source.bytes)) =>
      inclusion_like hcurrent (fun r hr => h r ⟨path, hpath, hr⟩) ih
    have hlike := fun path hpath => (hanswer path hpath).1
    refine ⟨readTokens_like hlike, ?_⟩
    rw [tries, tries, (requests_like _ (.refl {}) hlike).1]
    exact List.flatMap_congr fun path hpath => (hanswer path hpath).2

/-- The depth does not matter as long as it is not used up. -/
theorem tries_eq_of_card_lt (options : Options) {tree : FileTree} (ht : tree.WellPlaced)
    {reading : List Text} {d e : Nat} (hd : (unread tree reading).card < d)
    (he : (unread tree reading).card < e) :
    tries options tree d reading = tries options tree e reading := by
  induction d generalizing e reading with
  | zero => omega
  | succ d ih =>
    obtain ⟨e, rfl⟩ := Nat.exists_eq_succ_of_ne_zero (Nat.ne_of_gt (Nat.zero_lt_of_lt he))
    funext name dir source
    have hfetch : inclusion tree reading dir (readSource options tree d) =
        inclusion tree reading dir (readSource options tree e) :=
      inclusion_congr ht (fun _ hlt => readSource_eq_of_card_lt options ht (by omega) (by omega)) dir
    have hfollow : follow tree reading dir (tries options tree d) =
        follow tree reading dir (tries options tree e) := by
      funext path
      simp only [follow]
      split
      · rfl
      next hr =>
        cases ho : tree.openEntry (resolveInclude dir path) with
        | error _ => rfl
        | ok node =>
          have hlt := card_unread_lt ht ho hr
          dsimp only
          rw [ih (e := e) (by omega) (by omega)]
    rw [tries, tries, hfetch, hfollow]

/-- The paths that a load tries to open for its includes. -/
def tried (options : Options) (tree : FileTree) (name : Text) (source : Source) : List Text :=
  tries options tree (includeDepth tree) [tree.absolute name] name (Path.directory name) source

/-- The same but for the log. -/
structure Loaded.Like (l l' : Loaded) : Prop where
  chunks : l'.chunks = l.chunks
  errors : l'.errors = l.errors
  lines : l'.lines = l.lines

/-- A load depends on what is opened at the paths that it tries. -/
theorem load_like (options : Options) (ht : t.WellPlaced) (hu : u.WellPlaced)
    (hcurrent : u.current = t.current) (name : Text) (source : Source)
    (h : ∀ r ∈ tried options t name source, Opens t u r) :
    (load options t name source).Like (load options u name source) ∧
      tried options u name source = tried options t name source := by
  let depth := includeDepth t + includeDepth u
  have hcard : ∀ (tree : FileTree) (reading : List Text),
      (unread tree reading).card < includeDepth tree := fun tree reading =>
    Nat.lt_succ_of_le (card_unread_le tree reading)
  have hlt : ∀ reading, (unread t reading).card < depth := fun reading =>
    (hcard t reading).trans_le (Nat.le_add_right _ _)
  have hlt' : ∀ reading, (unread u reading).card < depth := fun reading =>
    (hcard u reading).trans_le (Nat.le_add_left _ _)
  unfold tried at h ⊢
  rw [tries_eq_of_card_lt options ht (hcard t _) (hlt _)] at h ⊢
  rw [tries_eq_of_card_lt options hu (hcard u _) (hlt' _), absolute_of_current hcurrent]
  obtain ⟨hlike, htries⟩ := readSource_like hcurrent depth _ _ _ _ h
  refine ⟨?_, htries⟩
  rw [readSource_eq_of_card_lt options ht (hlt _) (hcard t _),
    readSource_eq_of_card_lt options hu (hlt' _) (hcard u _)] at hlike
  unfold load
  rw [absolute_of_current hcurrent]
  exact ⟨by simp only [hlike.chunks], hlike.errors, hlike.lines⟩

end Literate.Reader

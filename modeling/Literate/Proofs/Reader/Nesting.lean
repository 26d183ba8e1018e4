import Mathlib.Logic.Relation
import Literate.Proofs.Reader.Includes

/-! Reading with a stack of open sources. An include opens a source on top of the one that asks for
it, and the end of that source closes it again; the list of what is being read grows and shrinks
with the stack. A run comes to an end for every source in every tree, and its result is that of
reading source by source. -/

namespace Literate.Reader

variable (options : Options) (name : Text) (tree : FileTree)

/-- The path of the source that a step asks for. -/
def request? (s : State) : Token → Option Text
  | .literal span =>
    match s.pending with
    | .includePath _ =>
      let path := Text.ofChars (Text.trimChars span)
      if path = [] ∨ s.body ≠ .top then none else some path
    | _ => none
  | _ => none

theorem step_congr {s : State} {t : Token} {fetch fetch' : Text → Inclusion}
    (h : ∀ path ∈ request? s t, fetch path = fetch' path) :
    step (options.context name fetch) s t = step (options.context name fetch') s t := by
  obtain ⟨n, body, before, current, pending, errors, lines, log⟩ := s
  cases pending with
  | includePath l =>
    cases t with
    | literal span =>
      rw [step_path rfl, step_path rfl, includeFile, includeFile]
      by_cases hpath : Text.ofChars (Text.trimChars span) = []
      · rw [if_pos hpath, if_pos hpath]
        rfl
      · rw [if_neg hpath, if_neg hpath]
        by_cases hbody : body = .top
        · have hfetch : fetch (Text.ofChars (Text.trimChars span)) =
              fetch' (Text.ofChars (Text.trimChars span)) := h _ (by simp [request?, hpath, hbody])
          simp only [Options.context, hfetch]
          rfl
        · rw [if_pos hbody, if_pos hbody]
          rfl
    | newline => rfl
    | control k => rfl
  | _ => cases t <;> rfl

theorem finish_congr (s : State) (fetch fetch' : Text → Inclusion) :
    finish (options.context name fetch) s = finish (options.context name fetch') s := by
  obtain ⟨n, body, before, current, pending, errors, lines, log⟩ := s
  cases pending <;> rfl

/-- An open source: its name, the directory that its includes start from, the failure that ends it,
how far it is read and the tokens that are left. -/
structure Frame where
  name : Text
  dir : Text
  failure : Option Text
  state : State
  rest : List Token

namespace Frame

/-- A source that was just opened. -/
def start (name dir : Text) (source : Source) : Frame :=
  ⟨name, dir, source.failure, {}, Token.ofText options.command source.bytes⟩

/-- Takes the next token, with the answer to what it asks for. -/
def take (answer : Inclusion) (f : Frame) : Frame :=
  match f.rest with
  | [] => f
  | t :: rest =>
    { f with state := step (options.context f.name fun _ => answer) f.state t, rest := rest }

/-- What the source gives when it ends here. -/
def outcome (f : Frame) : Outcome :=
  (finish (options.context f.name fun _ => .cycle) f.state).outcome

/-- The source at its end, when all that it includes is read as one answer each. -/
def ended (including : List Text) (f : Frame) : Frame :=
  { f with
    state := f.rest.foldl (step (contextIn options tree including f.name f.dir)) f.state
    rest := [] }

variable {options tree}

theorem outcome_ended_start (ht : tree.WellPlaced) (including : List Text) (name dir : Text)
    (source : Source) :
    ((start options name dir source).ended options tree including).outcome options =
      read options tree including name dir source := by
  rw [read_eq options ht, readTokens]
  exact congrArg State.outcome (finish_congr options name _ _ _)

theorem take_answer {including : List Text} {name dir : Text} {failure : Option Text}
    {state : State} {t : Token} {rest : List Token} {answer : Inclusion}
    (h : ∀ path ∈ request? state t, inclusion tree including dir (read options tree) path = answer) :
    take options answer ⟨name, dir, failure, state, t :: rest⟩ =
      ⟨name, dir, failure, step (contextIn options tree including name dir) state t, rest⟩ := by
  have hstep : step (options.context name fun _ => answer) state t =
      step (contextIn options tree including name dir) state t :=
    step_congr options name fun path hpath => (h path hpath).symm
  simp only [take, hstep]

end Frame

/-- The open sources, the innermost on top, and the absolute paths of what is being read. -/
structure Stack where
  including : List Text
  top : Frame
  below : List Frame

namespace Stack

/-- One step. A source that ends is closed and answers the one below; a token is taken, unless it
asks for a source that can be opened and is not open already. -/
def next (c : Stack) : Option Stack :=
  match c.top.rest with
  | [] =>
    match c.below with
    | [] => none
    | f :: below =>
      some ⟨c.including.dropLast, f.take options (.read (c.top.outcome options) c.top.failure), below⟩
  | t :: _ =>
    match request? c.top.state t with
    | none => some { c with top := c.top.take options .cycle }
    | some path =>
      let resolved := resolveInclude c.top.dir path
      if tree.absolute resolved ∈ c.including then
        some { c with top := c.top.take options .cycle }
      else
        match tree.openEntry resolved with
        | .error e => some { c with top := c.top.take options (.unopened e) }
        | .ok node =>
          some ⟨c.including ++ [tree.absolute resolved],
            .start options path (Path.directory resolved) (Source.ofNode resolved node),
            c.top :: c.below⟩

def Step (c d : Stack) : Prop := c.next options tree = some d

abbrev Reaches : Stack → Stack → Prop := Relation.ReflTransGen (Step options tree)

variable {options tree} {including : List Text}

theorem step_end (including : List Text) (path : Text) {f : Frame} (hf : f.rest = []) (g : Frame)
    (below : List Frame) :
    Step options tree ⟨including ++ [path], f, g :: below⟩
      ⟨including, g.take options (.read (f.outcome options) f.failure), below⟩ := by
  simp [Step, next, hf]

/-- A token is taken with the answer that reading by itself would give. When that is the outcome of
another source, the source is opened, runs to its end on top, and is closed again. -/
theorem reaches_token (ht : tree.WellPlaced)
    (ih : ∀ including', (unread tree including').card < (unread tree including).card →
      ∀ f below, Reaches options tree ⟨including', f, below⟩
        ⟨including', f.ended options tree including', below⟩)
    (name dir : Text) (failure : Option Text) (state : State) (t : Token) (rest : List Token)
    (below : List Frame) :
    Reaches options tree ⟨including, ⟨name, dir, failure, state, t :: rest⟩, below⟩
      ⟨including, ⟨name, dir, failure,
        step (contextIn options tree including name dir) state t, rest⟩, below⟩ := by
  cases hreq : request? state t with
  | none =>
    refine .single ?_
    simp only [Step, next, hreq]
    rw [Frame.take_answer (by simp [hreq])]
  | some path =>
    have hanswer : ∀ answer, inclusion tree including dir (read options tree) path = answer →
        Frame.take options answer ⟨name, dir, failure, state, t :: rest⟩ =
          ⟨name, dir, failure, step (contextIn options tree including name dir) state t, rest⟩ := by
      intro answer h
      exact Frame.take_answer (by simpa [hreq] using h)
    by_cases hopen : tree.absolute (resolveInclude dir path) ∈ including
    · refine .single ?_
      simp only [Step, next, hreq, if_pos hopen]
      rw [hanswer .cycle (by simp only [inclusion, if_pos hopen])]
    · cases hentry : tree.openEntry (resolveInclude dir path) with
      | error e =>
        refine .single ?_
        simp only [Step, next, hreq, if_neg hopen, hentry]
        rw [hanswer (.unopened e) (by simp only [inclusion, if_neg hopen, hentry])]
      | ok node =>
        let inner := Frame.start options path (Path.directory (resolveInclude dir path))
          (Source.ofNode (resolveInclude dir path) node)
        have hopened : Step options tree ⟨including, ⟨name, dir, failure, state, t :: rest⟩, below⟩
            ⟨including ++ [tree.absolute (resolveInclude dir path)], inner,
              ⟨name, dir, failure, state, t :: rest⟩ :: below⟩ := by
          simp only [Step, next, hreq, if_neg hopen, hentry]
          rfl
        have hinside := ih _ (card_unread_lt ht hentry hopen) inner
          (⟨name, dir, failure, state, t :: rest⟩ :: below)
        have hread : inclusion tree including dir (read options tree) path =
            .read ((inner.ended options tree
              (including ++ [tree.absolute (resolveInclude dir path)])).outcome options)
              inner.failure := by
          simp only [inclusion, if_neg hopen, hentry, inner, Frame.outcome_ended_start ht]
          rfl
        refine (Relation.ReflTransGen.head hopened hinside).tail ?_
        rw [← hanswer _ hread]
        exact step_end including _ rfl ⟨name, dir, failure, state, t :: rest⟩ below

/-- A source is read to its end, whatever is below it, and what is being read is the same again. -/
theorem reaches_end (ht : tree.WellPlaced) (including : List Text) (f : Frame)
    (below : List Frame) :
    Reaches options tree ⟨including, f, below⟩
      ⟨including, f.ended options tree including, below⟩ := by
  -- On the places that are left to read, and on the tokens of each source.
  induction hn : (unread tree including).card using Nat.strong_induction_on
    generalizing including f below with
  | _ n ih =>
    obtain ⟨name, dir, failure, state, rest⟩ := f
    induction rest generalizing state with
    | nil => exact .refl
    | cons t rest ihrest =>
      refine (reaches_token ht ?_ name dir failure state t rest below).trans (ihrest _)
      intro including' hlt f' below'
      exact ih _ (hn ▸ hlt) including' f' below' rfl

/-- What a step can do to the list: nothing, an open source at its end, or its last off again. -/
theorem step_cases {c d : Stack} (h : Step options tree c d) :
    (d.including = c.including ∧ d.below.length = c.below.length) ∨
    (∃ path node, tree.openEntry path = .ok node ∧ tree.absolute path ∉ c.including ∧
      d.including = c.including ++ [tree.absolute path] ∧ d.below.length = c.below.length + 1) ∨
    (d.including = c.including.dropLast ∧ c.below.length = d.below.length + 1) := by
  unfold Step next at h
  split at h
  · split at h
    · simp at h
    next f below hbelow =>
      cases h
      exact .inr (.inr ⟨rfl, by simp [hbelow]⟩)
  · split at h
    · cases h
      exact .inl ⟨rfl, rfl⟩
    next path hreq =>
      dsimp only at h
      split at h
      · cases h
        exact .inl ⟨rfl, rfl⟩
      next hopen =>
        split at h
        · cases h
          exact .inl ⟨rfl, rfl⟩
        next node hentry =>
          cases h
          exact .inr (.inl ⟨_, node, hentry, hopen, rfl, rfl⟩)

/-- The list holds one path for each open source, no path twice, and behind the first the names of
places of the tree. -/
structure Nested (tree : FileTree) (c : Stack) : Prop where
  length : c.including.length = c.below.length + 1
  nodup : c.including.Nodup
  absolute : ∀ path ∈ c.including, Path.isAbsolute path = true
  opened : ∀ path ∈ c.including.tail, path ∈ tree.places.image Path.ofPlace

theorem Nested.step (ht : tree.WellPlaced) {c d : Stack} (hc : c.Nested tree)
    (h : Step options tree c d) : d.Nested tree := by
  obtain ⟨length, nodup, absolute, opened⟩ := hc
  obtain ⟨hlist, hlen⟩ | ⟨path, node, hentry, hnew, hlist, hlen⟩ | ⟨hlist, hlen⟩ := step_cases h
  · exact ⟨by rw [hlist, hlen, length], by rwa [hlist], by rwa [hlist], by rwa [hlist]⟩
  · obtain ⟨place, hplace, hname⟩ := FileTree.absolute_of_openEntry ht hentry
    have hne : c.including ≠ [] := List.ne_nil_of_length_eq_add_one length
    refine ⟨by simp [hlist, hlen, length], ?_, ?_, ?_⟩
    · rw [hlist, ← List.concat_eq_append]
      exact nodup.concat hnew
    · simpa [hlist, or_imp, forall_and] using ⟨absolute, tree.isAbsolute_absolute path⟩
    · rw [hlist, List.tail_append_of_ne_nil hne]
      simp only [List.mem_append, List.mem_singleton]
      rintro p (hp | rfl)
      · exact opened p hp
      · exact Finset.mem_image.2 ⟨place, hplace, hname.symm⟩
  · refine ⟨by simp [hlist, length, hlen], ?_, ?_, ?_⟩
    · rw [hlist]
      exact nodup.sublist (List.dropLast_sublist _)
    · rw [hlist]
      exact fun p hp => absolute p (List.mem_of_mem_dropLast hp)
    · rw [hlist, List.tail_dropLast]
      exact fun p hp => opened p (List.mem_of_mem_dropLast hp)

theorem Nested.reaches (ht : tree.WellPlaced) {c d : Stack} (hc : c.Nested tree)
    (h : Reaches options tree c d) : d.Nested tree := by
  induction h with
  | refl => exact hc
  | tail _ hstep ih => exact ih.step ht hstep

/-- No more sources are open than the first and one for each place. -/
theorem Nested.length_le {c : Stack} (hc : c.Nested tree) :
    c.including.length ≤ tree.places.card + 1 := by
  have hsub : c.including.tail.toFinset ⊆ tree.places.image Path.ofPlace := fun p hp =>
    hc.opened p (List.mem_toFinset.1 hp)
  have hcard : c.including.tail.length ≤ tree.places.card := by
    rw [← List.toFinset_card_of_nodup (hc.nodup.sublist (List.tail_sublist _))]
    exact (Finset.card_le_card hsub).trans Finset.card_image_le
  rw [List.length_tail] at hcard
  omega

theorem acc_of_reaches {c stop : Stack} (h : Reaches options tree c stop)
    (hstop : stop.next options tree = none) : Acc (fun d c => Step options tree c d) c := by
  induction h using Relation.ReflTransGen.head_induction_on with
  | refl => exact ⟨_, fun d hd => by simp [Step, hstop] at hd⟩
  | head hstep _ ih =>
    refine ⟨_, fun d hd => ?_⟩
    rwa [← Option.some.inj (hstep.symm.trans hd)]

theorem stop_unique {c stop stop' : Stack} (h : Reaches options tree c stop)
    (hstop : stop.next options tree = none) (h' : Reaches options tree c stop')
    (hstop' : stop'.next options tree = none) : stop = stop' := by
  have hunique : Relator.RightUnique (Step options tree) := fun _ _ _ ha hb =>
    Option.some.inj (ha.symm.trans hb)
  have hhalt : ∀ {a b : Stack}, a.next options tree = none → Reaches options tree a b → a = b := by
    intro a b ha hab
    obtain hab | ⟨d, hd, -⟩ := hab.cases_head
    · exact hab
    · simp [Step, ha] at hd
  obtain hab | hba := h.total_of_right_unique hunique h'
  · exact hhalt hstop hab
  · exact (hhalt hstop' hba).symm

end Stack

/-- A reader between two loads: what it has counted, and what it is reading. -/
structure Session where
  errors : Nat := 0
  lines : Nat := 0
  including : List Text := []
deriving DecidableEq, Repr

namespace Session

variable {options tree}

/-- A load begins. -/
def start (options : Options) (tree : FileTree) (name : Text) (source : Source) (s : Session) :
    Stack :=
  ⟨s.including ++ [tree.absolute name], .start options name (Path.directory name) source, []⟩

/-- A load runs until no step is left. What its source gives is added to the counts, its path is
taken off the list, and its chunks are returned unless the source failed. -/
def Loads (options : Options) (tree : FileTree) (name : Text) (source : Source) (s s' : Session)
    (chunks : Except LoadError (List Chunk)) : Prop :=
  ∃ stop, Stack.Reaches options tree (s.start options tree name source) stop ∧
    stop.next options tree = none ∧
    s' = ⟨s.errors + (stop.top.outcome options).errors, s.lines + (stop.top.outcome options).lines,
      stop.including.dropLast⟩ ∧
    chunks = match source.failure with
      | some cause => .error (.unread name cause)
      | none => .ok ((stop.top.outcome options).chunks.filter fun c => !isVacuous c)

/-- A new reader after any loads, each from a tree of its own. -/
inductive Reached (options : Options) : Session → Prop
  | new : Reached options {}
  | load {s s' : Session} {tree : FileTree} {name : Text} {source : Source}
      {chunks : Except LoadError (List Chunk)} (hs : Reached options s) (ht : tree.WellPlaced)
      (h : s.Loads options tree name source s' chunks) : Reached options s'

theorem reaches_stop (options : Options) (ht : tree.WellPlaced) {s : Session} (hs : s.including = []) (name : Text)
    (source : Source) :
    ∃ stop, Stack.Reaches options tree (s.start options tree name source) stop ∧
      stop.next options tree = none ∧ stop.including.dropLast = s.including ∧
      stop.top.outcome options =
        read options tree [tree.absolute name] name (Path.directory name) source := by
  refine ⟨_, Stack.reaches_end ht _ _ _, rfl, List.dropLast_concat, ?_⟩
  rw [hs]
  exact Frame.outcome_ended_start ht [tree.absolute name] name (Path.directory name) source

/-- A load by a reader that is reading nothing runs to the result of `load`. -/
theorem loads_iff (ht : tree.WellPlaced) {s : Session} (hs : s.including = []) (name : Text)
    (source : Source) (s' : Session) (chunks : Except LoadError (List Chunk)) :
    s.Loads options tree name source s' chunks ↔
      s' = ⟨s.errors + (load options tree name source).errors,
        s.lines + (load options tree name source).lines, s.including⟩ ∧
      chunks = (load options tree name source).chunks := by
  obtain ⟨stop, hreach, hstop, hlist, houtcome⟩ := reaches_stop options ht hs name source
  constructor
  · rintro ⟨stop', hreach', hstop', rfl, rfl⟩
    obtain rfl := Stack.stop_unique hreach hstop hreach' hstop'
    rw [houtcome, hlist]
    exact ⟨rfl, rfl⟩
  · rintro ⟨rfl, rfl⟩
    refine ⟨stop, hreach, hstop, ?_, ?_⟩ <;> rw [houtcome]
    · rw [hlist]
      rfl
    · rfl

theorem including_eq_nil {s : Session} (h : Reached options s) : s.including = [] := by
  induction h with
  | new => rfl
  | load _ ht h ih =>
    rw [((loads_iff ht ih _ _ _ _).1 h).1]
    exact ih

/-- Includes come to an end and leave no trace. Whatever a reader has loaded before, a load of any
source in any tree takes finitely many steps; on the way no path is on the list twice, and no more
sources are open than there are places and one; and in the end the list is as it was, and the
result that of a new reader. -/
theorem load_leaves_no_trace {s : Session} (hs : Reached options s) (ht : tree.WellPlaced)
    (name : Text) (source : Source) :
    let loaded := load options tree name source
    Acc (fun d c => Stack.Step options tree c d) (s.start options tree name source) ∧
    (∀ c, Stack.Reaches options tree (s.start options tree name source) c →
      c.including.Nodup ∧ (∀ path ∈ c.including, Path.isAbsolute path = true) ∧
      c.including.length = c.below.length + 1 ∧ c.below.length + 1 ≤ tree.places.card + 1) ∧
    (∀ s' chunks, s.Loads options tree name source s' chunks ↔
      s' = ⟨s.errors + loaded.errors, s.lines + loaded.lines, s.including⟩ ∧
        chunks = loaded.chunks) ∧
    (∀ s' chunks, ({} : Session).Loads options tree name source s' chunks ↔
      s' = ⟨loaded.errors, loaded.lines, []⟩ ∧ chunks = loaded.chunks) := by
  intro loaded
  have hempty := including_eq_nil hs
  have hstart : (s.start options tree name source).Nested tree := by
    refine ⟨?_, ?_, ?_, ?_⟩ <;> simp [start, hempty, tree.isAbsolute_absolute name]
  refine ⟨?_, ?_, loads_iff ht hempty name source, ?_⟩
  · obtain ⟨stop, hreach, hstop, -⟩ := (loads_iff ht hempty name source _ _).2 ⟨rfl, rfl⟩
    exact Stack.acc_of_reaches hreach hstop
  · intro c hc
    have hnested := hstart.reaches ht hc
    have hle := hnested.length_le
    exact ⟨hnested.nodup, hnested.absolute, hnested.length, hnested.length ▸ hle⟩
  · intro s' chunks
    simpa using loads_iff ht (s := {}) rfl name source s' chunks

/-- Two sources that include each other, one of which includes its directory. -/
def ring : FileTree :=
  ⟨[(["w"], .directory), (["w", "a"], .file "@i b\n"), (["w", "b"], .file "@i ../w/a\n@i .\n")],
    ["w"]⟩

theorem wellPlaced_ring : ring.WellPlaced where
  names := by
    intro part hpart
    rw [List.mem_singleton.1 hpart]
    exact ⟨by decide, by decide, by decide, by decide⟩
  directories := by
    intro place hplace
    have hw : place <+: [] ++ [("w" : Text)] := hplace
    obtain rfl | hplace := List.prefix_concat_iff.1 hw
    · rfl
    · rw [List.prefix_nil.1 hplace]
      rfl

theorem load_leaves_no_trace_ring :
    let source : Source := ⟨"@i ../w/a\n@i .\n", none⟩
    ring.WellPlaced ∧ Reached {} ⟨2, 4, []⟩ ∧
      Acc (fun d c => Stack.Step {} ring c d) (start {} ring "b" source ⟨2, 4, []⟩) ∧
      (∀ c, Stack.Reaches {} ring (start {} ring "b" source ⟨2, 4, []⟩) c →
        c.including.Nodup ∧ c.including.length ≤ 5) ∧
      (∀ s' chunks, Loads {} ring "b" source ⟨2, 4, []⟩ s' chunks ↔
        s' = ⟨4, 7, []⟩ ∧ chunks = (load {} ring "b" source).chunks) := by
  intro source
  have hfailed : Reached {} ⟨2, 4, []⟩ := by
    refine .load .new wellPlaced_ring ((loads_iff wellPlaced_ring rfl "m.w" ⟨"@i a\n", some "gone"⟩
      _ _).2 ⟨?_, rfl⟩)
    decide
  obtain ⟨hacc, hnested, hloads, -⟩ := load_leaves_no_trace hfailed wellPlaced_ring "b" source
  have herrors : (load {} ring "b" source).errors = 2 := by decide
  have hlines : (load {} ring "b" source).lines = 3 := by decide
  have hplaces : ring.places.card = 4 := by decide
  rw [herrors, hlines] at hloads
  refine ⟨wellPlaced_ring, hfailed, hacc, fun c hc => ?_, hloads⟩
  obtain ⟨hnodup, -, hlength, hle⟩ := hnested c hc
  exact ⟨hnodup, by omega⟩

end Session

end Literate.Reader

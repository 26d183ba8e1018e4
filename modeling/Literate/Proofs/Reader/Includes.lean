import Literate.Reader
import Literate.Proofs.FileTree.Places

/-! Includes without a depth. Each include takes the name of a place that is not being read yet, so
a tree has only as many to take as it has places. The depth that reading starts from is never used
up, and reading satisfies its own equation without one. -/

namespace Literate.Reader

variable {tree : FileTree} {reading : List Text}

theorem step_path {ctx : Context} {s : State} {l : Location} (hs : s.pending = .includePath l)
    (span : List Char) :
    step ctx s (.literal span) =
      includeFile ctx (Text.ofChars (Text.trimChars span)) l { s with pending := .nothing } := by
  simp [step, operand, hs, State.advance]

/-- The places whose names are not on the list of what is being read. -/
def unread (tree : FileTree) (reading : List Text) : Finset (List Text) :=
  tree.places.filter fun place => Path.ofPlace place ∉ reading

theorem card_unread_lt (ht : tree.WellPlaced) {path : Text} {node : FileNode}
    (ho : tree.openEntry path = .ok node) (hr : tree.absolute path ∉ reading) :
    (unread tree (reading ++ [tree.absolute path])).card < (unread tree reading).card := by
  obtain ⟨place, hplace, hname⟩ := FileTree.absolute_of_openEntry ht ho
  rw [hname] at hr ⊢
  have hsub : unread tree (reading ++ [Path.ofPlace place]) ⊆ unread tree reading := by
    intro p hp
    simp_all [unread]
  refine Finset.card_lt_card (Finset.ssubset_iff_of_subset hsub |>.2 ⟨place, ?_, ?_⟩)
  · exact Finset.mem_filter.2 ⟨hplace, hr⟩
  · simp [unread]

def Options.context (options : Options) (name : Text) (fetch : Text → Inclusion) : Context :=
  ⟨options.command, options.permitMissing, options.substitutions, name, fetch⟩

/-- What becomes of an include from a directory, where sources that can be opened are read by
`inner`. -/
def inclusion (tree : FileTree) (reading : List Text) (dir : Text)
    (inner : List Text → (name dir : Text) → Source → Outcome) (path : Text) : Inclusion :=
  let resolved := resolveInclude dir path
  let absolute := tree.absolute resolved
  if absolute ∈ reading then .cycle
  else match tree.openEntry resolved with
    | .error e => .unopened e
    | .ok node =>
      let source := Source.ofNode resolved node
      .read (inner (reading ++ [absolute]) path (Path.directory resolved) source) source.failure

theorem readSource_succ (options : Options) (tree : FileTree) (depth : Nat) (reading : List Text)
    (name dir : Text) (source : Source) :
    readSource options tree (depth + 1) reading name dir source =
      readTokens (options.context name (inclusion tree reading dir (readSource options tree depth)))
        (Token.ofText options.command source.bytes) := rfl

/-- An include is answered alike by two readers that agree on whatever is left to read. -/
theorem inclusion_congr (ht : tree.WellPlaced)
    {inner inner' : List Text → (name dir : Text) → Source → Outcome}
    (h : ∀ reading', (unread tree reading').card < (unread tree reading).card →
      inner reading' = inner' reading') (dir : Text) :
    inclusion tree reading dir inner = inclusion tree reading dir inner' := by
  funext path
  simp only [inclusion]
  split
  · rfl
  next hr =>
    split
    · rfl
    next node ho => rw [h _ (card_unread_lt ht ho hr)]

theorem readSource_eq_of_card_lt (options : Options) (ht : tree.WellPlaced) {d e : Nat}
    (hd : (unread tree reading).card < d) (he : (unread tree reading).card < e) :
    readSource options tree d reading = readSource options tree e reading := by
  induction d generalizing e reading with
  | zero => omega
  | succ d ih =>
    obtain ⟨e, rfl⟩ := Nat.exists_eq_succ_of_ne_zero (Nat.ne_of_gt (Nat.zero_lt_of_lt he))
    funext name dir source
    have hfetch : inclusion tree reading dir (readSource options tree d) =
        inclusion tree reading dir (readSource options tree e) :=
      inclusion_congr ht (fun _ hlt => ih (by omega) (by omega)) dir
    rw [readSource_succ, readSource_succ, hfetch]

/-- Reads a source and all that it includes. -/
def read (options : Options) (tree : FileTree) : List Text → (name dir : Text) → Source → Outcome :=
  readSource options tree (includeDepth tree)

/-- What the steps over a source share when its includes are read as well. -/
def contextIn (options : Options) (tree : FileTree) (reading : List Text) (name dir : Text) :
    Context :=
  options.context name (inclusion tree reading dir (read options tree))

theorem card_unread_le (tree : FileTree) (reading : List Text) :
    (unread tree reading).card ≤ tree.entries.length + 1 :=
  (Finset.card_filter_le _ _).trans tree.card_places_le

theorem read_eq (options : Options) (ht : tree.WellPlaced) (reading : List Text) (name dir : Text)
    (source : Source) :
    read options tree reading name dir source =
      readTokens (contextIn options tree reading name dir)
        (Token.ofText options.command source.bytes) := by
  have hcard := card_unread_le tree reading
  have hfetch : inclusion tree reading dir (readSource options tree (tree.entries.length + 1)) =
      inclusion tree reading dir (read options tree) :=
    inclusion_congr ht (fun reading' hlt =>
      readSource_eq_of_card_lt options ht (by omega) (by unfold includeDepth; omega)) dir
  rw [contextIn, ← hfetch]
  exact readSource_succ options tree (tree.entries.length + 1) reading name dir source

end Literate.Reader

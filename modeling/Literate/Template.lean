import Literate.Template.Function
import Literate.Template.Parse

/-! Layouts given as text with actions between delimiters, and how they are filled with data. An
action may fail to fit the data; then the whole layout fails. -/

namespace Literate.Template

/-- Variables and their values, the latest first. -/
abbrev Variables := List (Text × Value)

namespace Variables

/-- Gives a value to the latest variable of a name. -/
def assign? (name : Text) (v : Value) : Variables → Option Variables
  | [] => none
  | (other, w) :: rest =>
    if other = name then some ((other, v) :: rest)
    else (assign? name v rest).map ((other, w) :: ·)

/-- Gives a value to variables, new ones or ones that are there. -/
def bind? (names : List Text) (assigns : Bool) (v : Value) (vars : Variables) : Option Variables :=
  names.foldlM (fun vars name =>
    if assigns then assign? name v vars else some ((name, v) :: vars)) vars

/-- The variables of one round of a repetition: the item, after its number if there are two. -/
def round? (p : Pipeline) (i : Nat) (v : Value) (vars : Variables) : Option Variables :=
  match p.names, p.assigns, vars with
  | [], _, vars => some vars
  | [item], true, vars => assign? item v vars
  | [index, item], true, vars => (assign? index (.number i) vars).bind (assign? item v)
  | [_], false, (item, _) :: rest => some ((item, v) :: rest)
  | [_, _], false, (item, _) :: (index, _) :: rest =>
    some ((item, v) :: (index, .number i) :: rest)
  | _, _, _ => none

/-- Forgets the variables beyond the given number of oldest ones. -/
def oldest (n : Nat) (vars : Variables) : Variables := vars.drop (vars.length - n)

end Variables

/-- What an expression is evaluated in. -/
structure Scope where
  dot : Value
  quote : Text → Text

/-- A computation that may set variables and may fail. -/
abbrev Run := StateT Variables Option

def Run.fail {α : Type} : Run α := fun _ => none

mutual

/-- The value of a term that is given no arguments. -/
def Term.value (s : Scope) : Term → Run Value
  | .dot => pure s.dot
  | .nothing => pure .missing
  | .literal v => liftM v
  | .field path => liftM (s.dot.path? path)
  | .variable name path => fun vars =>
    ((vars.lookup name).bind (Value.path? path)).map fun v => (v, vars)
  | .function name => liftM (invoke? s.quote name [])
  | .group names assigns commands => do
    let v ← commandsValue s none commands
    fun vars => (vars.bind? names assigns v).map fun vars => (v, vars)
  | .chain t path => do
    let v ← Term.value s t
    liftM (v.path? path)

def termValues (s : Scope) : List Term → Run (List Value)
  | [] => pure []
  | t :: rest => do
    let v ← Term.value s t
    let vs ← termValues s rest
    return v :: vs

/-- The first of several values with the given truth, or the last of them. -/
def firstValue (s : Scope) (truth : Bool) (last : Option Value) : List Term → Run Value
  | [] => liftM last
  | t :: rest => do
    let v ← Term.value s t
    if v.truth == truth || (rest.isEmpty && last.isNone) then pure v
    else firstValue s truth last rest

/-- The value of a command. Only a function can be given arguments, the last of which may be the
value of the command before. -/
def commandValue (s : Scope) (last : Option Value) : List Term → Run Value
  | [] => Run.fail
  | .function name :: arguments =>
    if name = ("and" : Text) then firstValue s false last arguments
    else if name = ("or" : Text) then firstValue s true last arguments
    else do
      let vs ← termValues s arguments
      liftM (invoke? s.quote name (vs ++ last.toList))
  | .nothing :: _ => Run.fail
  | t :: arguments => if arguments.isEmpty && last.isNone then Term.value s t else Run.fail

def commandsValue (s : Scope) (last : Option Value) : List (List Term) → Run Value
  | [] => liftM last
  | c :: rest => do
    let v ← commandValue s last c
    commandsValue s (some v) rest

end

def Pipeline.value (s : Scope) (p : Pipeline) : Run Value := do
  let v ← commandsValue s none p.commands
  fun vars => (vars.bind? p.names p.assigns v).map fun vars => (v, vars)

/-- How a part of a layout came to its end. -/
inductive Course where
  | through
  | left
  | skipped
deriving DecidableEq, Repr

/-- Fills a layout by its name. -/
abbrev Caller := Text → Value → Option Text

/-- The rounds of a repetition from the `i`-th on. The variables of a round are forgotten after
it. -/
def rounds (body : Value → Run (Text × Course)) (p : Pipeline) : Nat → List Value → Run Text
  | _, [] => pure []
  | i, v :: rest => fun vars => do
    let own ← vars.round? p i v
    let ((out, course), after) ← body v own
    let after := after.oldest vars.length
    if course = .left then some (out, after)
    else
      let (more, after) ← rounds body p (i + 1) rest after
      some (out ++ more, after)

mutual

/-- Fills a sequence of nodes, up to one that leaves it. -/
def fillAll (call : Caller) (s : Scope) : List Node → Run (Text × Course)
  | [] => pure ([], .through)
  | n :: rest => do
    let (out, course) ← fill call s n
    if course = .through then do
      let (more, course) ← fillAll call s rest
      return (out ++ more, course)
    else return (out, course)

def fill (call : Caller) (s : Scope) : Node → Run (Text × Course)
  | .text t => pure (t, .through)
  | .emit p => do
    let v ← p.value s
    return (if p.names.isEmpty then v.display else [], .through)
  | .choose p yes no => fun vars => do
    let (v, own) ← p.value s vars
    let (r, after) ← if v.truth then fillAll call s yes own else fillAll call s no own
    some (r, after.oldest vars.length)
  | .using p yes no => fun vars => do
    let (v, own) ← p.value s vars
    let (r, after) ← if v.truth then fillAll call { s with dot := v } yes own
      else fillAll call s no own
    some (r, after.oldest vars.length)
  | .each p body no => fun vars => do
    let (v, own) ← p.value s vars
    match v, p.names with
    | .number _, [_, _] => none
    | _, _ =>
      let items ← v.items?
      if items.isEmpty then
        let ((out, course), after) ← fillAll call s no own
        some ((out, if course = .left then .through else course), after.oldest vars.length)
      else
        let (out, after) ← rounds (fun v => fillAll call { s with dot := v } body) p 0 items own
        some ((out, .through), after.oldest vars.length)
  | .embed name argument => do
    let v ← match argument with
      | none => pure Value.missing
      | some p => p.value s
    let out ← liftM (call name v)
    return (out, .through)
  | .leave => pure ([], .left)
  | .next => pure ([], .skipped)

end

/-- Layouts call one another no deeper than this. -/
def depthLimit : Nat := 1000

/-- Fills a layout by its name. -/
def fillNamed (layouts : Layouts) (quote : Text → Text) : Nat → Text → Value → Option Text
  | 0, _, _ => none
  | depth + 1, name, data =>
    match layouts.lookup name with
    | none => none
    | some nodes =>
      (fillAll (fillNamed layouts quote depth) ⟨data, quote⟩ nodes [("$", data)]).map
        fun ((out, _), _) => out

end Literate.Template

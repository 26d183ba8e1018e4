import Literate.Proofs.Job.Traffic
import Literate.Proofs.Program.Verdict

/-! What the transitions of a pool do, said once for each of them, and what is found in the store
after a change. -/

namespace Literate

section Build

variable {site : Build.Site}

theorem Build.isFinal_verdict (c : Build.Course) : c.verdict.1.isFinal = true := by
  unfold Build.Course.verdict
  split
  · rfl
  · split <;> rfl

/-- A build ends with a final status, called off or not. -/
theorem Build.isFinal_run (path : Text) (confined : Bool) (off : Build.Cancellation)
    (tree : FileTree) : (Build.run site path confined off tree).1.status.isFinal = true := by
  unfold Build.run
  split
  · rfl
  · dsimp only
    split
    · rfl
    · split
      · rfl
      next c _ => exact Build.isFinal_verdict c

end Build

namespace Job

/-- A job that is not over has no final status. -/
structure Live (j : Job) : Prop where
  undone : j.done = false
  unfinished : j.status.isFinal = false

/-- A job that is over has one. -/
structure Over (j : Job) : Prop where
  done : j.done = true
  final : j.status.isFinal = true

section Store

variable {j : Job} {id : Text} {f : Job → Job}

theorem Store.get?_put_of_ne (s : Store) (h : id ≠ j.id) : (s.put j).get? id = s.get? id := by
  have hj : (j.id == id) = false := by simpa using h.symm
  have hmap : ∀ k : Job, ((if k.id == j.id then j else k).id == id) = (k.id == id) := by
    intro k
    by_cases hk : k.id = j.id <;> simp [hk]
  unfold put get?
  dsimp only
  split
  · induction s.jobs with
    | nil => rfl
    | cons k jobs ih =>
      rw [List.map_cons, List.find?_cons, List.find?_cons, hmap, ih]
      by_cases hk : k.id = j.id
      · simp [hk, hj]
      · simp [hk]
  · simp [List.find?_append, hj]

theorem Store.get?_modify_of_ne (s : Store) {k : Text} (h : id ≠ k) (hf : ∀ j, (f j).id = j.id) :
    (s.modify k f).get? id = s.get? id := by
  unfold modify get?
  induction s.jobs with
  | nil => rfl
  | cons l jobs ih =>
    rw [List.map_cons, List.find?_cons, List.find?_cons, ih]
    by_cases hl : l.id = k
    · have hk : (k == id) = false := by simpa using h.symm
      simp [hl, hf, hk]
    · simp [hl]

end Store

namespace Pool

variable {p q : Pool} {id : Text}

theorem accept_cases {j : Job} (h : p.accept j = some q) :
    p.stopped = false ∧ q = { p with store := p.store.put j, waiting := some j.id } := by
  unfold accept at h
  split at h
  · cases h
  next hopen => exact ⟨by simpa using hopen, (Option.some.inj h).symm⟩

theorem enqueue_cases (h : p.enqueue = some q) :
    ∃ id, p.waiting = some id ∧ q = { p with waiting := none, queue := p.queue ++ [id] } := by
  unfold enqueue at h
  split at h
  next id hid =>
    split at h <;> cases h
    exact ⟨id, hid, rfl⟩
  · cases h

theorem giveUp_cases (h : p.giveUp = some q) :
    ∃ id, p.waiting = some id ∧
      q = { p with waiting := none, store := p.store.modify id giveUpJob } := by
  obtain ⟨id, hid, rfl⟩ := Option.map_eq_some_iff.1 h
  exact ⟨id, hid, rfl⟩

theorem id_giveUpJob (j : Job) : (giveUpJob j).id = j.id := by
  cases h : j.done <;> simp [giveUpJob, Job.finish, setStatus, h]

theorem take_cases (h : p.take = some q) :
    ∃ id rest, p.queue = id :: rest ∧ q = { p with queue := rest, busy := p.busy ++ [id] } := by
  unfold take at h
  split at h
  next id rest hqueue =>
    split at h <;> cases h
    exact ⟨id, rest, hqueue, rfl⟩
  · cases h

theorem complete_cases {r : Build.Report} (h : p.complete id r = some q) :
    id ∈ p.busy ∧
      q = { p with busy := p.busy.erase id, store := p.store.modify id (withReport r) } := by
  unfold complete at h
  split at h
  next hbusy => exact ⟨hbusy, (Option.some.inj h).symm⟩
  · cases h

theorem close_cases (h : p.close = some q) :
    p.stopped = false ∧ q = { p with stopped := true } := by
  unfold close at h
  split at h
  · cases h
  next hopen => exact ⟨by simpa using hopen, (Option.some.inj h).symm⟩

end Pool

end Job

end Literate

import Mathlib.Data.List.Forall2
import Literate.Proofs.Build.Agreement
import Literate.Proofs.Job.Transitions

/-! Jobs that stay apart. If what each job writes is apart from what the others read and write, then
each job ends as if it were done alone, and the files are those of all jobs, in whatever order they are
done. -/

namespace Literate.Job

open FileTree (Apart Beside Same Separate writeAll writeAll_append writeAll_perm)

section Definitions

variable (site : Build.Site) (t : FileTree)

/-- The files that a job writes when it is done alone. -/
def files (j : Job) : List (Text × Text) := Build.writes site t j.path j.confined {}

/-- The names of the paths of the job's web and of its files are within the limit. -/
def Worded (j : Job) : Prop := Build.Worded site t j.path j.confined {}

def alone (j : Job) : Job := (j.process site {} t).1

/-- Neither job writes at, above or below a place that the other reads or writes. -/
structure Independent (j k : Job) : Prop where
  files : Apart t (j.files site t) (k.files site t)
  reads : ∀ r ∈ Build.reads site t k.path, ∀ f ∈ j.files site t,
    Separate (t.placeOf f.1) (t.placeOf r)
  read : ∀ r ∈ Build.reads site t j.path, ∀ f ∈ k.files site t,
    Separate (t.placeOf f.1) (t.placeOf r)

/-- Jobs that are independent of each other, in a tree where everything has its directory. -/
structure Independents (js : List Job) : Prop where
  sound : t.Sound
  clean : ∀ j ∈ js, ∀ r ∈ Build.reads site t j.path, Path.clean r = r
  apart : js.Pairwise (Independent site t)
  ids : (js.map Job.id).Nodup

end Definitions

/-- Two ends of a job that tell the same, but for the words of errors. -/
structure Like (worded : Prop) (j k : Job) : Prop where
  id : k.id = j.id
  path : k.path = j.path
  status : k.status = j.status
  phase : k.phase = j.phase
  hash : k.hash = j.hash
  web : k.web = j.web
  summary : Build.Summary.Like worded j.summary k.summary

variable {site : Build.Site} {t u : FileTree} {j k : Job} {js ks : List Job}

theorem Independent.symm (h : Independent site t j k) : Independent site t k j :=
  ⟨h.files.symm, h.read, h.reads⟩

instance symm_independent : Std.Symm (Independent site t) := ⟨fun _ _ => Independent.symm⟩

theorem isJoined_of_mem_files {f : Text × Text} (h : f ∈ j.files site t) : FileTree.IsJoined f.1 :=
  Build.isJoined_of_mem h

theorem Independents.same_perm (h : Independents site t js) (hperm : js.Perm ks) :
    Same (writeAll (js.flatMap (files site t)) t) (writeAll (ks.flatMap (files site t)) t) :=
  writeAll_perm hperm h.sound (fun _ _ _ hf => isJoined_of_mem_files hf)
    (h.apart.imp Independent.files)

theorem clears_of_independent (hclean : ∀ r ∈ Build.reads site t j.path, Path.clean r = r)
    (h : ∀ k ∈ ks, Independent site t k j) :
    Build.Clears site t j.path j.confined {} (ks.flatMap (files site t)) := by
  refine ⟨hclean, fun r hr f hf => ?_, fun f hf g hg => ?_⟩
  · obtain ⟨k, hk, hf⟩ := List.mem_flatMap.1 hf
    exact (h k hk).reads r hr f hf
  · obtain ⟨k, hk, hg⟩ := List.mem_flatMap.1 hg
    exact (h k hk).files.symm f hf g hg

theorem beside_nil (ht : t.Sound) : Beside [] t t := ⟨by simp, ht, .refl t⟩

/-- After jobs that it is independent of, a job ends as if it were done alone, and its files come to
theirs. -/
theorem run_beside {path : Text} {confined : Bool} (hpath : path = j.path)
    (hconfined : confined = j.confined) (hb : Beside (ks.flatMap (files site t)) t u)
    (hclean : ∀ r ∈ Build.reads site t j.path, Path.clean r = r)
    (h : ∀ k ∈ ks, Independent site t k j) :
    Build.Report.Like (j.Worded site t) (Build.run site j.path j.confined {} t).1
        (Build.run site path confined {} u).1 ∧
      Beside ((j :: ks).flatMap (files site t)) t (Build.run site path confined {} u).2 := by
  subst hpath hconfined
  obtain ⟨hreport, hbeside⟩ := Build.run_like hb (clears_of_independent hclean h)
  refine ⟨hreport, fun f hf => ?_, hb.sound, ?_⟩
  · obtain ⟨k, -, hf⟩ := List.mem_flatMap.1 hf
    exact isJoined_of_mem_files hf
  · rw [List.flatMap_cons, writeAll_append, files, ← Build.tree_run]
    exact hbeside.same

theorem Like.of_report {worded : Prop} {r s : Build.Report} (hid : k.id = j.id)
    (hpath : k.path = j.path) (h : Build.Report.Like worded r s) :
    Like worded (j.withReport r) (k.withReport s) :=
  ⟨hid, hpath, h.status, h.phase, h.hash, h.web, h.summary⟩

theorem process_beside (hb : Beside (ks.flatMap (files site t)) t u)
    (hclean : ∀ r ∈ Build.reads site t j.path, Path.clean r = r)
    (h : ∀ k ∈ ks, Independent site t k j) :
    Like (j.Worded site t) (j.alone site t) (j.process site {} u).1 ∧
      Beside ((j :: ks).flatMap (files site t)) t (j.process site {} u).2.1 := by
  obtain ⟨hreport, hbeside⟩ := run_beside rfl rfl hb hclean h
  exact ⟨.of_report rfl rfl hreport, hbeside⟩

theorem Pool.runAll_beside {p : Pool} (hp : p.Idle) (log : List Log.Record)
    (hb : Beside (ks.flatMap (files site t)) t u)
    (hclean : ∀ j ∈ js, ∀ r ∈ Build.reads site t j.path, Path.clean r = r)
    (happart : js.Pairwise (Independent site t))
    (h : ∀ j ∈ js, ∀ k ∈ ks, Independent site t k j) :
    ∃ done pool tree more, runAll site js p u log = (.ok done, pool, tree, more) ∧
      List.Forall₂ (fun j k => Like (j.Worded site t) (j.alone site t) k) js done ∧
      Beside ((js.reverse ++ ks).flatMap (files site t)) t tree := by
  induction js generalizing p u log ks with
  | nil => exact ⟨[], p, u, log, rfl, .nil, hb⟩
  | cons j js ih =>
    obtain ⟨hj, happart⟩ := List.pairwise_cons.1 happart
    obtain ⟨next, hnext, hcons⟩ := runAll_cons site hp j js u log
    obtain ⟨hlike, hbeside⟩ := process_beside hb (hclean j (by simp)) (h j (by simp))
    obtain ⟨done, pool, tree, more, hrest, hdone, htree⟩ := ih hnext
      (log ++ (j.process site {} u).2.2) hbeside (fun i hi => hclean i (by simp [hi])) happart
      fun i hi k hk => by
        rcases List.mem_cons.1 hk with rfl | hk
        · exact hj i hi
        · exact h i (by simp [hi]) k hk
    refine ⟨(j.process site {} u).1 :: done, pool, tree, more, ?_, .cons hlike hdone, ?_⟩
    · rw [hcons, hrest]
      rfl
    · simpa using htree

end Literate.Job

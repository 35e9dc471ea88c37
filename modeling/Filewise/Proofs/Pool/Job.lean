import Filewise.Pool
import Filewise.Proofs.Output.Writing
import Filewise.Proofs.Path.Order
import Mathlib.Data.List.Pairwise

/-!
# Jobs that keep apart

A job is a unit together with what its plan says about it: its target, its source, the
location that it goes to and the one where it is read. Jobs keep apart if none goes to a
place at, above or below the destination of another, nor to a place at or above one where
something is read. Whatever other jobs have written before, a job that keeps apart from
them finds what it needs as it was at the start.

## Main definitions

* `PlannedUnit.outcome`: what a unit writes, or why it writes nothing, on its own.
* `Job`, `Job.Fits`.
* `KeepApart`: jobs keep apart.
* `Written`: what some of the jobs have left in a tree.

## Main results

* `Written.read_eq`: a job reads what was there at the start.
* `Written.makeDirectory_eq`, `Written.place_eq`: a job writes, or fails to write, as it does
  on its own.
-/

namespace Filewise

/-! ### How units go on their own -/

namespace PlannedUnit

/-- What a unit makes of its source. -/
def converted (u : PlannedUnit) (t : Target) (x : Source) (tree : Tree) :
    Except BuildError ByteArray :=
  (x.read tree).2 >>= convert t u.steps

/-- How writing the output of a unit goes if nothing else is written. -/
def written (u : PlannedUnit) (t : Target) (x : Source) (tree : Tree) (content : ByteArray) :
    UnitResult :=
  match (Outputs.empty.write tree t.id t.outputRoot u.outputPath x.relative content).2.2 with
  | .ok _ => .ok ()
  | .error e => .error (unitError x.relative e)

/-- What a unit writes that is worked on alone, or why it writes nothing. -/
def outcome (u : PlannedUnit) (t : Target) (x : Source) (tree : Tree) :
    Except BuildError ByteArray := do
  let content ← u.converted t x tree
  u.written t x tree content
  return content

variable {u : PlannedUnit} {t : Target} {x : Source} {tree : Tree} {content : ByteArray}

/-- Without its directory an output is not written. -/
theorem written_of_makeDirectory_error {e : WriteError}
    (h : (Outputs.makeDirectory tree t.outputRoot u.outputPath).2 = .error e) :
    u.written t x tree content = .error (unitError x.relative e) := by
  have hclaim : Outputs.empty.claim t.id u.outputPath x.relative =
      .ok { Outputs.empty with claims := [⟨t.id, u.outputPath, x.relative⟩] } := rfl
  unfold written Outputs.write
  rw [hclaim]
  rcases hmade : Outputs.makeDirectory tree t.outputRoot u.outputPath with ⟨tree', result⟩
  obtain rfl : result = .error e := by rw [← h, hmade]
  rfl

/-- In its directory an output is written if it can be put in place there. -/
theorem written_of_makeDirectory_ok
    (h : (Outputs.makeDirectory tree t.outputRoot u.outputPath).2 = .ok ()) :
    u.written t x tree content =
      ((fun _ => ()) <$> Outputs.place (Outputs.makeDirectory tree t.outputRoot u.outputPath).1
        t.outputRoot u.outputPath content).mapError (unitError x.relative) := by
  have hclaim : Outputs.empty.claim t.id u.outputPath x.relative =
      .ok { Outputs.empty with claims := [⟨t.id, u.outputPath, x.relative⟩] } := rfl
  unfold written Outputs.write
  rw [hclaim]
  rcases hmade : Outputs.makeDirectory tree t.outputRoot u.outputPath with ⟨tree', result⟩
  obtain rfl : result = .ok () := by rw [← h, hmade]
  dsimp only
  cases Outputs.place tree' t.outputRoot u.outputPath content <;> rfl

theorem outcome_of_converted_error {e : BuildError} (h : u.converted t x tree = .error e) :
    u.outcome t x tree = .error e := by
  rw [outcome, h]
  rfl

theorem outcome_of_converted_ok (h : u.converted t x tree = .ok content) :
    u.outcome t x tree = (fun _ => content) <$> u.written t x tree content := by
  rw [outcome, h]
  cases hwritten : u.written t x tree content <;> simp [hwritten, bind, Except.bind, pure,
    Except.pure, Functor.map, Except.map]

/-- What is written in the end could be put in place. -/
theorem place_of_outcome_ok {output : ByteArray} (h : u.converted t x tree = .ok content)
    (hmade : (Outputs.makeDirectory tree t.outputRoot u.outputPath).2 = .ok ())
    (hok : u.outcome t x tree = .ok output) :
    (fun _ => ()) <$> Outputs.place (Outputs.makeDirectory tree t.outputRoot u.outputPath).1
      t.outputRoot u.outputPath content = .ok () := by
  rw [outcome_of_converted_ok h, written_of_makeDirectory_ok hmade] at hok
  cases hplace : Outputs.place (Outputs.makeDirectory tree t.outputRoot u.outputPath).1
    t.outputRoot u.outputPath content with
  | error e => simp [hplace, Functor.map, Except.map, Except.mapError] at hok
  | ok after => rfl

end PlannedUnit

/-- A unit whose target stands at its place is converted for that target. -/
theorem BuildConfig.targetOf_eq {c : BuildConfig} {u : PlannedUnit} {t : Target}
    (ht : c.targets[u.targetIndex]? = some t) (hid : u.target = t.id) (source : Path) :
    c.targetOf u source = .ok t := by
  unfold targetOf
  rw [ht, hid, Option.filter_some_pos (by simp)]

/-! ### Jobs -/

/-- A unit with its target, its source, the location that it goes to and the one where its
source is read. -/
structure Job where
  unit : PlannedUnit
  target : Target
  source : Source
  directory : Location
  name : String
  readAt : Location

namespace Job

/-- The location that a job goes to. -/
def destination (j : Job) : Location := j.directory ++ [j.name]

/-- What a job writes that is worked on alone, or why it writes nothing. -/
def outcome (j : Job) (tree : Tree) : Except BuildError ByteArray :=
  j.unit.outcome j.target j.source tree

/-- How a job goes that is worked on alone. -/
def result (j : Job) (tree : Tree) : UnitResult := (fun _ => ()) <$> j.outcome tree

/-- A job is what a configuration and the sources of a plan say about its unit. -/
structure Fits (c : BuildConfig) (sources : List Source) (j : Job) : Prop where
  target? : c.targets[j.unit.targetIndex]? = some j.target
  target : j.unit.target = j.target.id
  source : sources[j.unit.source]? = some j.source
  unread : j.source.content = .unread
  destination : (Outputs.destination j.target.outputRoot j.unit.outputPath).components =
    .root :: j.destination.map .name
  readAt : j.source.absolute.components = .root :: j.readAt.map .name

/-- A job whose source cannot be converted ends there. -/
theorem result_of_converted_error {j : Job} {tree : Tree} {e : BuildError}
    (h : j.unit.converted j.target j.source tree = .error e) : j.result tree = .error e := by
  rw [result, outcome, PlannedUnit.outcome_of_converted_error h]
  rfl

/-- A job whose source can be converted goes as its writing goes. -/
theorem result_of_converted_ok {j : Job} {tree : Tree} {content : ByteArray}
    (h : j.unit.converted j.target j.source tree = .ok content) :
    j.result tree = j.unit.written j.target j.source tree content := by
  rw [result, outcome, PlannedUnit.outcome_of_converted_ok h]
  cases j.unit.written j.target j.source tree content <;> rfl

theorem Fits.targetOf_eq {c : BuildConfig} {sources : List Source} {j : Job}
    (h : j.Fits c sources) (source : Path) : c.targetOf j.unit source = .ok j.target :=
  BuildConfig.targetOf_eq h.target? h.target source

theorem directory_prefix_destination (j : Job) : j.directory <+: j.destination :=
  List.prefix_append j.directory [j.name]

theorem not_destination_prefix_directory (j : Job) : ¬j.destination <+: j.directory := by
  intro h
  have hlength := h.length_le
  rw [destination, List.length_append, List.length_singleton] at hlength
  omega

end Job

/-- None of the jobs goes to a place at, above or below the destination of another, nor to a
place at or above one where something is read. What is read is there, and different outputs
of one target have different paths. -/
structure KeepApart (tree : Tree) (jobs : List Job) : Prop where
  closed : tree.Closed
  readable : ∀ j ∈ jobs, (tree.find? j.readAt).isSome = true
  apart : jobs.Pairwise fun j k =>
    ¬j.destination <+: k.destination ∧ ¬k.destination <+: j.destination
  paths : jobs.Pairwise fun j k =>
    j.target.id = k.target.id → j.unit.outputPath.same k.unit.outputPath = false
  harmless : ∀ j ∈ jobs, ∀ k ∈ jobs, ¬j.destination <+: k.readAt

variable {c : BuildConfig} {sources : List Source} {tree t t' : Tree} {jobs : List Job} {j k : Job}
  {i i' : Nat} {l : Location} {wrote : List Nat} {content content' : ByteArray}

/-- Jobs that keep apart are one and the same if one goes to a place at or above the
destination of the other. -/
theorem KeepApart.eq_of_prefix (h : KeepApart tree jobs) (hj : jobs[i]? = some j)
    (hk : jobs[i']? = some k) (hpre : j.destination <+: k.destination) : i = i' :=
  index_eq_of_pairwise h.apart hj hk (fun hapart => hapart.1 hpre) fun hapart => hapart.2 hpre

/-- Jobs of one target are one and the same if their outputs have the same path. -/
theorem KeepApart.eq_of_same (h : KeepApart tree jobs) (hj : jobs[i]? = some j)
    (hk : jobs[i']? = some k) (hid : j.target.id = k.target.id)
    (hsame : j.unit.outputPath.same k.unit.outputPath = true) : i = i' := by
  refine index_eq_of_pairwise h.paths hj hk (fun hpaths => ?_) fun hpaths => ?_
  · rw [hpaths hid] at hsame
    simp at hsame
  · rw [Path.same_comm, hpaths hid.symm] at hsame
    simp at hsame

/-- No job goes to a place at or above the directory of a job. -/
theorem KeepApart.not_prefix_directory (h : KeepApart tree jobs) (hj : jobs[i]? = some j)
    (hk : jobs[i']? = some k) : ¬j.destination <+: k.directory := by
  intro hpre
  obtain rfl := h.eq_of_prefix hj hk (hpre.trans k.directory_prefix_destination)
  obtain rfl := Option.some_inj.mp (hj.symm.trans hk)
  exact j.not_destination_prefix_directory hpre

/-! ### What jobs leave in a tree -/

/-- A tree is as it was, except that some jobs have left their outputs there, and that
directories were made above destinations where nothing stood. -/
structure Written (tree : Tree) (jobs : List Job) (wrote : List Nat) (t : Tree) : Prop where
  closed : t.Closed
  cases : ∀ l,
    (t.find? l = tree.find? l ∧ ∀ i ∈ wrote, ∀ j, jobs[i]? = some j → j.destination ≠ l) ∨
    (∃ i ∈ wrote, ∃ j content, jobs[i]? = some j ∧ j.destination = l ∧
      j.outcome tree = .ok content ∧ t.find? l = some (.file content)) ∨
    (tree.find? l = none ∧ t.find? l = some .directory ∧ ∃ j ∈ jobs, l <+: j.directory)

namespace Written

/-- At the start nothing is written. -/
theorem start (h : KeepApart tree jobs) : Written tree jobs [] tree :=
  ⟨h.closed, fun l => Or.inl ⟨rfl, by simp⟩⟩

/-- The destination of a job that has not been written is as it was. -/
theorem find?_destination (h : Written tree jobs wrote t) (hjobs : KeepApart tree jobs)
    (hj : jobs[i]? = some j) (hi : i ∉ wrote) :
    t.find? j.destination = tree.find? j.destination := by
  rcases h.cases j.destination with ⟨heq, -⟩ | ⟨i', hi', k, _, hk, heq, -⟩ | ⟨-, -, k, hk, hpre⟩
  · exact heq
  · rw [hjobs.eq_of_prefix hk hj (heq ▸ List.prefix_rfl)] at hi'
    exact absurd hi' hi
  · obtain ⟨i', hk⟩ := List.mem_iff_getElem?.mp hk
    exact absurd hpre (hjobs.not_prefix_directory hj hk)

/-- The destination of a job that has been written holds what it writes on its own. -/
theorem exists_of_mem (h : Written tree jobs wrote t) (hjobs : KeepApart tree jobs)
    (hj : jobs[i]? = some j) (hi : i ∈ wrote) :
    ∃ content, j.outcome tree = .ok content ∧ t.find? j.destination = some (.file content) := by
  rcases h.cases j.destination with ⟨-, hne⟩ | ⟨i', -, k, content, hk, heq, hok, hfile⟩ |
    ⟨-, -, k, hk, hpre⟩
  · exact absurd rfl (hne i hi j hj)
  · obtain rfl := hjobs.eq_of_prefix hk hj (heq ▸ List.prefix_rfl)
    obtain rfl := Option.some_inj.mp (hk.symm.trans hj)
    exact ⟨content, hok, hfile⟩
  · obtain ⟨i', hk⟩ := List.mem_iff_getElem?.mp hk
    exact absurd hpre (hjobs.not_prefix_directory hj hk)

/-- Above the destination of a job, all is as it was but that directories were made. -/
theorem of_prefix_directory (h : Written tree jobs wrote t) (hjobs : KeepApart tree jobs)
    (hj : jobs[i]? = some j) (hl : l <+: j.directory) :
    t.find? l = tree.find? l ∨ tree.find? l = none ∧ t.find? l = some .directory := by
  rcases h.cases l with ⟨heq, -⟩ | ⟨i', -, k, _, hk, rfl, -⟩ | ⟨hnone, hmade, -⟩
  · exact Or.inl heq
  · exact absurd hl (hjobs.not_prefix_directory hk hj)
  · exact Or.inr ⟨hnone, hmade⟩

/-- Where a job reads, all is as it was. -/
theorem find?_of_prefix_readAt (h : Written tree jobs wrote t) (hjobs : KeepApart tree jobs)
    (hj : j ∈ jobs) (hl : l <+: j.readAt) : t.find? l = tree.find? l := by
  have hsome : (tree.find? l).isSome = true := by
    by_cases hend : l = j.readAt
    · rw [hend]
      exact hjobs.readable j hj
    · have := hjobs.closed.hasDirectory_of_prefix (hjobs.readable j hj) hl hend
      rw [Tree.hasDirectory_iff.mp this]
      rfl
  rcases h.cases l with ⟨heq, -⟩ | ⟨i, -, k, _, hk, rfl, -⟩ | ⟨hnone, -, -⟩
  · exact heq
  · exact absurd hl (hjobs.harmless k (List.mem_of_getElem? hk) j hj)
  · rw [hnone] at hsome
    simp at hsome

/-- A job reads what was there at the start. -/
theorem read_eq (h : Written tree jobs wrote t) (hjobs : KeepApart tree jobs) (hj : j ∈ jobs)
    (hfits : j.Fits c sources) : t.read j.source.absolute = tree.read j.source.absolute :=
  Tree.read_congr hfits.readAt
    (fun _ hl => Tree.SameKind.of_eq (h.find?_of_prefix_readAt hjobs hj hl))
    (h.find?_of_prefix_readAt hjobs hj List.prefix_rfl)

/-- Making directories above the destination of a job keeps everything else as it is. -/
theorem grows (h : Written tree jobs wrote t) (hj : jobs[i]? = some j)
    (hgrows : Tree.Grows j.directory t t') : Written tree jobs wrote t' := by
  refine ⟨hgrows.closed h.closed, fun l => ?_⟩
  rcases hgrows.same_or_made l with heq | ⟨hnone, hmade, hl⟩
  · rw [heq]
    exact h.cases l
  · have hj := List.mem_of_getElem? hj
    rcases h.cases l with ⟨heq, -⟩ | ⟨_, _, _, _, _, _, _, hfile⟩ | ⟨-, hdirectory, -⟩
    · exact Or.inr (Or.inr ⟨heq ▸ hnone, hmade, j, hj, hl⟩)
    · rw [hnone] at hfile
      simp at hfile
    · rw [hnone] at hdirectory
      simp at hdirectory

/-- Putting the output of a job in place keeps everything else as it is. -/
theorem put (h : Written tree jobs wrote t) (hj : jobs[i]? = some j)
    (hok : j.outcome tree = .ok content) (hdirectory : t.hasDirectory j.directory = true)
    (hend : t.hasDirectory j.destination = false) :
    Written tree jobs (wrote ++ [i]) (t.put j.destination (.file content)) := by
  have hne : j.destination ≠ [] := by simp [Job.destination]
  refine ⟨h.closed.put _ hdirectory fun _ => hend, fun l => ?_⟩
  rw [Tree.find?_put t hne]
  split_ifs with heq
  · exact Or.inr (Or.inl ⟨i, List.mem_append_right _ (List.mem_singleton_self i), j, content, hj,
      heq.symm, hok, rfl⟩)
  · rcases h.cases l with ⟨hsame, hothers⟩ | ⟨i', hi', hfile⟩ | hmade
    · refine Or.inl ⟨hsame, fun i' hi' k hk => ?_⟩
      rcases List.mem_append.mp hi' with hi' | hi'
      · exact hothers i' hi' k hk
      · obtain rfl := List.mem_singleton.mp hi'
        obtain rfl := Option.some_inj.mp (hj.symm.trans hk)
        exact Ne.symm heq
    · exact Or.inr (Or.inl ⟨i', List.mem_append_left _ hi', hfile⟩)
    · exact Or.inr (Or.inr hmade)

/-! ### Jobs write as they do on their own -/

/-- Making the directory of a job goes as it does on its own. -/
theorem makeDirectory_eq (h : Written tree jobs wrote t) (hjobs : KeepApart tree jobs)
    (hj : jobs[i]? = some j) (hfits : j.Fits c sources) :
    (Outputs.makeDirectory t j.target.outputRoot j.unit.outputPath).2 =
      (Outputs.makeDirectory tree j.target.outputRoot j.unit.outputPath).2 := by
  apply Outputs.makeDirectory_congr h.closed hjobs.closed hfits.destination
  intro l hl
  rcases h.of_prefix_directory hjobs hj hl with heq | ⟨hnone, hmade⟩
  · rw [Tree.hasFile, Tree.hasFile, heq]
  · rw [Tree.hasFile_of_none hnone,
      Tree.hasFile_of_hasDirectory (Tree.hasDirectory_iff.mpr hmade)]

/-- Putting the output of a job in place goes as it does on its own, once the directory is
made. -/
theorem place_eq (h : Written tree jobs wrote t) (hjobs : KeepApart tree jobs)
    (hj : jobs[i]? = some j) (hfits : j.Fits c sources) (hi : i ∉ wrote)
    (hdirectory : t.hasDirectory j.directory = true)
    (hmade : (Outputs.makeDirectory tree j.target.outputRoot j.unit.outputPath).2 = .ok ())
    (content content' : ByteArray) :
    (fun _ => ()) <$> Outputs.place t j.target.outputRoot j.unit.outputPath content =
      (fun _ => ()) <$> Outputs.place
        (Outputs.makeDirectory tree j.target.outputRoot j.unit.outputPath).1
        j.target.outputRoot j.unit.outputPath content' := by
  have hgrows := Outputs.grows_makeDirectory hjobs.closed hfits.destination
  have hdirectory' := Outputs.hasDirectory_of_makeDirectory hjobs.closed hfits.destination hmade
  refine Outputs.place_congr hfits.destination (fun l hl => ?_) content content'
  rcases List.prefix_concat_iff.mp hl with rfl | hl
  · -- at the destination nothing has changed, with or without other jobs
    refine Tree.SameKind.of_eq ((h.find?_destination hjobs hj hi).trans ?_)
    rcases hgrows.same_or_made j.destination with heq | ⟨-, -, hpre⟩
    · exact heq.symm
    · exact absurd hpre j.not_destination_prefix_directory
  · -- above it there are directories
    have hl' := h.closed.hasDirectory_above hdirectory hl
    have hl'' := (hgrows.closed hjobs.closed).hasDirectory_above hdirectory' hl
    exact Tree.SameKind.of_hasDirectory hl' hl''

/-- A job that has been written can be written again, as it was on its own. -/
theorem place_again (h : Written tree jobs wrote t) (hjobs : KeepApart tree jobs)
    (hj : jobs[i]? = some j) (hfits : j.Fits c sources) (hi : i ∈ wrote)
    (hdirectory : t.hasDirectory j.directory = true)
    (hmade : (Outputs.makeDirectory tree j.target.outputRoot j.unit.outputPath).2 = .ok ())
    (content content' : ByteArray)
    (hok : (fun _ => ()) <$> Outputs.place
        (Outputs.makeDirectory tree j.target.outputRoot j.unit.outputPath).1
        j.target.outputRoot j.unit.outputPath content = .ok ()) :
    (fun _ => ()) <$> Outputs.place t j.target.outputRoot j.unit.outputPath content' = .ok () := by
  have hgrows := Outputs.grows_makeDirectory hjobs.closed hfits.destination
  have hdirectory' := Outputs.hasDirectory_of_makeDirectory hjobs.closed hfits.destination hmade
  refine Outputs.place_ok_of_place_ok hfits.destination (fun l hl => ?_) ?_ hok
  · exact Tree.SameKind.of_hasDirectory
      ((hgrows.closed hjobs.closed).hasDirectory_above hdirectory' hl)
      (h.closed.hasDirectory_above hdirectory hl)
  · -- what it wrote is a file
    obtain ⟨written, -, hfile⟩ := h.exists_of_mem hjobs hj hi
    change t.hasDirectory j.destination = false
    rw [Tree.hasDirectory, hfile]
    rfl

/-- A job makes of its source what it makes of it on its own. -/
theorem converted_eq (h : Written tree jobs wrote t) (hjobs : KeepApart tree jobs) (hj : j ∈ jobs)
    (hfits : j.Fits c sources) : j.unit.converted j.target j.source t =
      j.unit.converted j.target j.source tree := by
  have hrefreshed : j.source.refreshed t = j.source.refreshed tree := by
    simp only [Source.refreshed, hfits.unread, Source.load, h.read_eq hjobs hj hfits]
  unfold PlannedUnit.converted Source.read
  rw [hrefreshed]

/-- What a job writes on its own does not change when jobs are written, itself included. -/
theorem outcome_eq (h : Written tree jobs wrote t) (hjobs : KeepApart tree jobs)
    (hj : jobs[i]? = some j) (hfits : j.Fits c sources) : j.outcome t = j.outcome tree := by
  have hconverted := h.converted_eq hjobs (List.mem_of_getElem? hj) hfits
  have hmake := h.makeDirectory_eq hjobs hj hfits
  unfold Job.outcome
  cases hcontent : j.unit.converted j.target j.source tree with
  | error e =>
    rw [PlannedUnit.outcome_of_converted_error hcontent,
      PlannedUnit.outcome_of_converted_error (hconverted.trans hcontent)]
  | ok content =>
    rw [PlannedUnit.outcome_of_converted_ok hcontent,
      PlannedUnit.outcome_of_converted_ok (hconverted.trans hcontent)]
    cases hmade : (Outputs.makeDirectory tree j.target.outputRoot j.unit.outputPath).2 with
    | error e =>
      rw [PlannedUnit.written_of_makeDirectory_error hmade,
        PlannedUnit.written_of_makeDirectory_error (hmake.trans hmade)]
    | ok _ =>
      have hgrown := h.grows hj (Outputs.grows_makeDirectory h.closed hfits.destination)
      have hdirectory := Outputs.hasDirectory_of_makeDirectory h.closed hfits.destination
        (hmake.trans hmade)
      rw [PlannedUnit.written_of_makeDirectory_ok hmade,
        PlannedUnit.written_of_makeDirectory_ok (hmake.trans hmade)]
      by_cases hi : i ∈ wrote
      · -- it could be put in place before, and now it goes over the same file
        obtain ⟨_, hok, -⟩ := h.exists_of_mem hjobs hj hi
        have hplaced := PlannedUnit.place_of_outcome_ok hcontent hmade hok
        rw [hplaced, hgrown.place_again hjobs hj hfits hi hdirectory hmade content content hplaced]
      · rw [hgrown.place_eq hjobs hj hfits hi hdirectory hmade content content]

end Written

end Filewise

import Filewise.Proofs.Output.Calls
import Filewise.Proofs.Path.Order
import Filewise.Proofs.Tree.Contents

/-!
# Owners of output paths

However calls are interleaved, a path of a target belongs for good to the source that claimed it
first. A call by this source is never refused, and a call by any other source changes nothing. If
the roots of different targets lead to places apart, the file at the place of a path holds what it
held at the start, or what its owner wrote there last.

It is not enough that the roots are written apart: a double dot in one of them can lead to the
place of the other.

## Main definitions

* `Call.IsDecided`: a call is refused if and only if its path belongs to another source.
* `Calls.HaveRoots`: each target has one root, below which its paths stay.
* `Calls.HaveApartRoots`: the roots of different targets lead to places apart.

## Main results

* `Calls.one_owner_per_path`: owners, refusals, the number of written files, and their contents.
-/

namespace Filewise

namespace Outputs

variable {o o' : Outputs} {target target' : String} {path path' source owner : Path}
  {e : WriteError}

/-! ### Owners -/

/-- Who owns a path depends on its components. -/
theorem owner?_congr (h : path.same path' = true) (o : Outputs) (target : String) :
    o.owner? target path = o.owner? target path' := by
  have hsame : ∀ p : Path, p.same path = p.same path' := fun p => by
    rw [Path.same, Path.same, Path.same_iff.mp h]
  simp only [owner?, hsame]

/-- A claim is refused if the path belongs to another source. -/
theorem claim_eq_error_iff : o.claim target path source = .error e ↔
    ∃ owner, o.owner? target path = some owner ∧ owner.same source = false ∧
      e = .collision target path owner := by
  unfold claim
  cases howner : o.owner? target path with
  | none => simp
  | some owner =>
    cases hsame : owner.same source
    · simp [hsame, @eq_comm _ e]
    · simp [hsame]

/-- A granted claim leaves every path to its owner. -/
theorem owner?_of_claim (h : o.claim target path source = .ok o')
    (howner : o.owner? target' path' = some owner) : o'.owner? target' path' = some owner := by
  unfold claim at h
  split at h
  · obtain rfl := Except.ok.inj h
    obtain ⟨claim, hfind, hclaim⟩ := Option.map_eq_some_iff.mp howner
    simp [owner?, List.find?_append, hfind, hclaim]
  · split_ifs at h
    obtain rfl := Except.ok.inj h
    exact howner

/-- After a granted claim the path belongs to the source. -/
theorem exists_owner?_of_claim (h : o.claim target path source = .ok o') :
    ∃ owner, o'.owner? target path = some owner ∧ owner.same source = true := by
  cases howner : o.owner? target path with
  | none =>
    simp only [claim, howner, Except.ok.injEq] at h
    subst h
    refine ⟨source, ?_, Path.same_refl source⟩
    have hnone := Option.map_eq_none_iff.mp howner
    simp [owner?, List.find?_append, hnone, Path.same_refl]
  | some owner =>
    refine ⟨owner, owner?_of_claim h howner, ?_⟩
    by_contra hsame
    rw [claim_eq_error_iff.mpr ⟨owner, howner, by simpa using hsame, rfl⟩] at h
    simp at h

/-- A refused claim by a source that does not own the path names the owner. -/
theorem claim_of_not_same (howner : o.owner? target path = some owner)
    (hsame : owner.same source = false) :
    o.claim target path source = .error (.collision target path owner) :=
  claim_eq_error_iff.mpr ⟨owner, howner, hsame, rfl⟩

theorem makeDirectory_ne_collision {t t' : Tree} {root : Path}
    (h : makeDirectory t root path = (t', .error (.collision target path' owner))) : False := by
  unfold makeDirectory at h
  split at h <;> simp at h

theorem place_ne_collision {t : Tree} {root : Path} {content : ByteArray}
    (h : place t root path content = .error (.collision target path' owner)) : False := by
  unfold place at h
  split at h <;> simp at h

end Outputs

/-! ### Calls and owners -/

namespace Call

variable {call call' : Call} {o o' : Outputs} {tree tree' : Tree} {stage stage' : Stage}

/-- A call is refused if and only if its path belongs to another source; it is told the owner. -/
def IsDecided (o : Outputs) (call : Call) (stage : Stage) : Prop :=
  ∃ owner, o.owner? call.target call.path = some owner ∧
    (owner.same call.source = true ∧
        (∀ target path owner, stage ≠ .returned (.error (.collision target path owner))) ∨
      owner.same call.source = false ∧
        stage = .returned (.error (.collision call.target call.path owner)))

/-- A call for a path of a target. -/
def IsFor (call : Call) (target : String) (path : Path) : Prop :=
  call.target = target ∧ call.path.same path = true

instance (call : Call) (target : String) (path : Path) : Decidable (call.IsFor target path) :=
  inferInstanceAs (Decidable (_ ∧ _))

/-- What a call writes. -/
def content? (call : Call) : Option ByteArray := call.file?.map Prod.snd

/-- No step of a call takes a path from its owner. -/
theorem Step.owner? (h : call.Step o tree stage o' tree' stage') {target : String}
    {path owner : Path} (howner : o.owner? target path = some owner) :
    o'.owner? target path = some owner := by
  cases h with
  | claim hclaim | claimToWrite hclaim => exact Outputs.owner?_of_claim hclaim howner
  | _ => exact howner

/-- What is decided on a call stays so. -/
theorem Step.isDecided_of_isDecided (h : call.Step o tree stage o' tree' stage') {other : Stage}
    (hdecided : IsDecided o call' other) : IsDecided o' call' other := by
  obtain ⟨owner, howner, hcases⟩ := hdecided
  exact ⟨owner, h.owner? howner, hcases⟩

/-- The first step of a call decides on it. -/
theorem Step.isDecided (h : call.Step o tree stage o' tree' stage')
    (hstage : stage ≠ .claiming → IsDecided o call stage) : IsDecided o' call stage' := by
  -- a call that goes on after its claim was not refused, and has no more reason to be
  have hgoesOn : ∀ {stage}, (∀ answer, stage ≠ .returned answer) → stage ≠ .claiming →
      (stage ≠ .claiming → IsDecided o call stage) →
      ∃ owner, o.owner? call.target call.path = some owner ∧ owner.same call.source = true := by
    intro stage hnot hne hdecided
    obtain ⟨owner, howner, ⟨hsame, -⟩ | ⟨-, hrefused⟩⟩ := hdecided hne
    · exact ⟨owner, howner, hsame⟩
    · exact absurd hrefused (hnot _)
  cases h with
  | claim hclaim | claimToWrite hclaim =>
    obtain ⟨owner, howner, hsame⟩ := Outputs.exists_owner?_of_claim hclaim
    exact ⟨owner, howner, Or.inl ⟨hsame, by simp⟩⟩
  | claimFails hclaim =>
    obtain ⟨owner, howner, hsame, rfl⟩ := Outputs.claim_eq_error_iff.mp hclaim
    exact ⟨owner, howner, Or.inr ⟨hsame, rfl⟩⟩
  | makeDirectory | place | count =>
    obtain ⟨owner, howner, hsame⟩ := hgoesOn (by simp) (by simp) hstage
    exact ⟨owner, howner, Or.inl ⟨hsame, by simp⟩⟩
  | makeDirectoryFails _ hmake =>
    obtain ⟨owner, howner, hsame⟩ := hgoesOn (by simp) (by simp) hstage
    refine ⟨owner, howner, Or.inl ⟨hsame, fun target path owner heq => ?_⟩⟩
    obtain rfl := Except.error.inj (Stage.returned.inj heq)
    exact Outputs.makeDirectory_ne_collision hmake
  | placeFails _ hplace =>
    obtain ⟨owner, howner, hsame⟩ := hgoesOn (by simp) (by simp) hstage
    refine ⟨owner, howner, Or.inl ⟨hsame, fun target path owner heq => ?_⟩⟩
    obtain rfl := Except.error.inj (Stage.returned.inj heq)
    exact Outputs.place_ne_collision hplace

/-- The only step of a call for a path that belongs to another source is that it is refused. -/
theorem step_claiming_iff_of_not_same {owner : Path}
    (howner : o.owner? call.target call.path = some owner)
    (hsame : owner.same call.source = false) :
    call.Step o tree .claiming o' tree' stage' ↔ o' = o ∧ tree' = tree ∧
      stage' = .returned (.error (.collision call.target call.path owner)) := by
  have hclaim := Outputs.claim_of_not_same howner hsame
  constructor
  · intro h
    cases h with
    | claim hok | claimToWrite hok => simp [hclaim] at hok
    | claimFails herror =>
      rw [hclaim] at herror
      obtain rfl := Except.error.inj herror
      exact ⟨rfl, rfl, rfl⟩
  · rintro ⟨rfl, rfl, rfl⟩
    exact .claimFails hclaim

/-- Only a file that was put in place is counted. -/
theorem Step.written (h : call.Step o tree stage o' tree' stage') :
    stage.isWritten = false ∧
      o'.written = o.written + if stage'.isWritten then 1 else 0 := by
  cases h with
  | claim hclaim | claimToWrite hclaim => exact ⟨rfl, Outputs.written_of_claim hclaim⟩
  | _ => exact ⟨rfl, rfl⟩

/-- A file has been put in place from the moment that its call is about to count it. -/
theorem Step.isPlaced (h : call.Step o tree stage o' tree' stage') :
    stage'.isPlaced.toNat = stage.isPlaced.toNat + stage'.isCounting.toNat := by
  cases h <;> rfl

/-- A step touches no file but the one that is put in place. -/
theorem Step.content? (h : call.Step o tree stage o' tree' stage') :
    tree'.workingDirectory = tree.workingDirectory ∧
      (stage'.isCounting = false ∧ (∀ l, tree'.content? l = tree.content? l) ∨
        stage'.isCounting = true ∧ ∃ root content, call.file? = some (root, content) ∧
          ∀ l, tree'.content? l =
            if l = tree.locate (Outputs.destination root call.path) then some content
            else tree.content? l) := by
  cases h with
  | @makeDirectory root _ _ _ hmake | @makeDirectoryFails root _ _ _ _ hmake =>
    have hsame := Outputs.sameContents_makeDirectory tree root call.path
    rw [hmake] at hsame
    exact ⟨hsame.workingDirectory, Or.inl ⟨rfl, hsame.content?⟩⟩
  | place hfile hplace =>
    obtain ⟨hdirectory, hcontent⟩ := Outputs.content?_of_place hplace
    exact ⟨hdirectory, Or.inr ⟨rfl, _, _, hfile, hcontent⟩⟩
  | _ => exact ⟨rfl, Or.inl ⟨rfl, fun _ => rfl⟩⟩

end Call

/-! ### Runs -/

namespace Calls

variable {rootOf : String → Path} {tree : Tree} {calls : List Call} {first s s' : Calls}
  {placed placed' : List Call} {call call' : Call}

/-- Each target has one root, below which the paths of its calls stay. -/
structure HaveRoots (rootOf : String → Path) (calls : List Call) : Prop where
  root : ∀ call ∈ calls, ∀ root content, call.file? = some (root, content) →
    root.same (rootOf call.target) = true
  names : ∀ call ∈ calls, ∃ names : List String, call.path.components = names.map .name

/-- Calls for the same names have roots if their roots are the ones given. -/
theorem haveRoots_of_all (names : List String)
    (hroot : ∀ call ∈ calls,
      (call.file?.map Prod.fst).all (·.same (rootOf call.target)) = true)
    (hnames : ∀ call ∈ calls, call.path.components = names.map .name) :
    HaveRoots rootOf calls := by
  refine ⟨fun call hcall root content hfile => ?_, fun call hcall => ⟨names, hnames call hcall⟩⟩
  simpa [hfile] using hroot call hcall

/-- The roots of different targets lead to places apart. -/
def HaveApartRoots (rootOf : String → Path) (tree : Tree) (calls : List Call) : Prop :=
  ∀ call ∈ calls, ∀ call' ∈ calls, call.target ≠ call'.target →
    ¬tree.locate (rootOf call.target) <+: tree.locate (rootOf call'.target)

/-- The place of the output path of a call. -/
def placeOf (rootOf : String → Path) (tree : Tree) (call : Call) : Location :=
  tree.locate (Outputs.destination (rootOf call.target) call.path)

/-- Only calls for the same path of the same target have the same place. -/
theorem placeOf_eq_iff (hroots : HaveRoots rootOf calls) (hapart : HaveApartRoots rootOf tree calls)
    (hcall : call ∈ calls) (hcall' : call' ∈ calls) :
    placeOf rootOf tree call = placeOf rootOf tree call' ↔
      call'.IsFor call.target call.path := by
  obtain ⟨names, hnames⟩ := hroots.names call hcall
  obtain ⟨names', hnames'⟩ := hroots.names call' hcall'
  have hsame : call'.path.same call.path = true ↔ names' = names := by
    rw [Path.same_iff, hnames, hnames']
    exact Path.map_name_injective.eq_iff
  rw [placeOf, placeOf, Outputs.destination, Outputs.destination, Tree.locate_join _ _ hnames,
    Tree.locate_join _ _ hnames', Call.IsFor, hsame]
  by_cases htarget : call.target = call'.target
  · simp [htarget, @eq_comm _ names']
  · -- below places apart nothing is in common
    simp only [Ne.symm htarget, false_and, iff_false]
    intro heq
    rcases List.prefix_or_prefix_of_prefix ⟨names, rfl⟩ ⟨names', heq.symm⟩ with hpre | hpre
    · exact hapart call hcall call' hcall' htarget hpre
    · exact hapart call' hcall' call hcall (Ne.symm htarget) hpre

theorem map_fst_start (calls : List Call) (tree : Tree) :
    (Calls.start calls tree).calls.map Prod.fst = calls := by
  simp [Calls.start, Function.comp_def]

/-- In a run the calls stay the same. -/
theorem Run.map_fst (h : Run first placed s) : s.calls.map Prod.fst = first.calls.map Prod.fst := by
  induction h with
  | start => rfl
  | @step placed s i call stage o tree stage' _ hcall _ ih =>
    obtain ⟨hlt, hcall⟩ := List.getElem?_eq_some_iff.mp hcall
    have hlt' : i < (s.calls.map Prod.fst).length := by simpa using hlt
    have hself : (s.calls.map Prod.fst)[i] = call := by simp [hcall]
    rw [List.map_set, ← ih, ← hself]
    exact List.set_getElem_self hlt'

/-- A call that takes a step is one of the calls. -/
theorem Run.mem (h : Run (Calls.start calls tree) placed s) {i : Nat} {stage : Call.Stage}
    (hcall : s.calls[i]? = some (call, stage)) : call ∈ calls := by
  rw [← map_fst_start calls tree, ← h.map_fst]
  exact List.mem_map_of_mem (f := Prod.fst) (List.mem_of_getElem? hcall)

/-- A path belongs to its owner for good. -/
theorem Run.owner? (h : Run first placed s) {target : String} {path owner : Path}
    (howner : first.outputs.owner? target path = some owner) :
    s.outputs.owner? target path = some owner := by
  induction h with
  | start => exact howner
  | step _ _ hstep ih => exact hstep.owner? ih

/-- Calls are refused if and only if their paths belong to other sources. -/
theorem Run.isDecided (h : Run (Calls.start calls tree) placed s) :
    ∀ entry ∈ s.calls, entry.2 ≠ .claiming → entry.1.IsDecided s.outputs entry.2 := by
  induction h with
  | start =>
    rintro entry hentry hne
    obtain ⟨call, -, rfl⟩ := List.mem_map.mp hentry
    exact absurd rfl hne
  | step _ hcall hstep ih =>
    rintro entry hentry hne
    rcases List.mem_or_eq_of_mem_set hentry with hentry | rfl
    · exact hstep.isDecided_of_isDecided (ih entry hentry hne)
    · exact hstep.isDecided (ih _ (List.mem_of_getElem? hcall))

/-! ### Counts -/

/-- How a count changes where one entry of a list is replaced. -/
theorem countP_set_add {α : Type} {p : α → Bool} {l : List α} {i : Nat} {a : α}
    (h : l[i]? = some a) (b : α) :
    (l.set i b).countP p + (p a).toNat = l.countP p + (p b).toNat := by
  obtain ⟨hlt, rfl⟩ := List.getElem?_eq_some_iff.mp h
  have hpos : p l[i] = true → 0 < l.countP p := fun hp =>
    List.countP_pos_iff.mpr ⟨_, List.getElem_mem hlt, hp⟩
  rw [List.countP_set hlt]
  cases hp : p l[i] <;> cases p b <;> simp_all

/-- The counter is the number of calls that have answered that their files were written. -/
theorem Run.written (h : Run (Calls.start calls tree) placed s) :
    s.outputs.written = s.calls.countP (·.2.isWritten) := by
  induction h with
  | start => simp [Calls.start, Outputs.empty, Call.Stage.isWritten, Function.comp_def]
  | @step placed s i call stage o tree stage' _ hcall hstep ih =>
    obtain ⟨hnot, hwritten⟩ := hstep.written
    have hcount := countP_set_add (p := fun entry => entry.2.isWritten) hcall (call, stage')
    rw [hwritten, ih]
    cases hstage : stage'.isWritten <;> simp_all

/-- The calls that have put their files in place are those that have come this far. -/
theorem Run.perm_placed (h : Run (Calls.start calls tree) placed s) :
    placed.Perm ((s.calls.filter (·.2.isPlaced)).map Prod.fst) := by
  have hcount : ∀ call, placed.count call =
      s.calls.countP fun entry => entry.1 == call && entry.2.isPlaced := by
    intro other
    induction h with
    | start => simp [Calls.start, Call.Stage.isPlaced, Function.comp_def]
    | @step placed s i call stage o tree stage' _ hcall hstep ih =>
      have hset := countP_set_add (p := fun entry => entry.1 == other && entry.2.isPlaced) hcall
        (call, stage')
      have hplaced := hstep.isPlaced
      rw [List.count_append, ih]
      by_cases hother : call = other
      · subst hother
        cases hstage : stage'.isCounting
        · simp_all
        · simp_all
          omega
      · have hne : (call == other) = false := beq_eq_false_iff_ne.mpr hother
        cases hstage : stage'.isCounting <;> simp_all
  rw [List.perm_iff_count]
  intro call
  rw [hcount, List.count_eq_countP, List.countP_map, List.countP_filter]
  rfl

/-! ### Contents -/

/-- The working directory stays. -/
theorem Run.workingDirectory (h : Run first placed s) :
    s.tree.workingDirectory = first.tree.workingDirectory := by
  induction h with
  | start => rfl
  | step _ _ hstep ih => exact hstep.content?.1.trans ih

/-- The file at the place of a path holds what was put there last, or else what it held at the
start. -/
theorem Run.content? (h : Run (Calls.start calls tree) placed s) (hroots : HaveRoots rootOf calls)
    (hapart : HaveApartRoots rootOf tree calls) (hcall : call ∈ calls) :
    s.tree.content? (placeOf rootOf tree call) =
      ((placed.filter (·.IsFor call.target call.path)).getLast?.bind Call.content?).or
        (tree.content? (placeOf rootOf tree call)) := by
  induction h with
  | start => rfl
  | @step placed s i other stage o tree' stage' hrun hother hstep ih =>
    rcases hstep.content?.2 with ⟨hnot, hcontent⟩ | ⟨hcounting, root, content, hfile, hcontent⟩
    · rw [hcontent, ih, hnot]
      simp
    · -- the file is put at the place of the other call
      have hmem := hrun.mem hother
      have hplace : s.tree.locate (Outputs.destination root other.path) =
          placeOf rootOf tree other := by
        obtain ⟨names, hnames⟩ := hroots.names other hmem
        rw [placeOf, Outputs.destination, Outputs.destination, Tree.locate_join _ _ hnames,
          Tree.locate_join _ _ hnames, Tree.locate, Tree.locate,
          Path.same_iff.mp (hroots.root other hmem root content hfile), hrun.workingDirectory]
        rfl
      simp only [hcontent, hplace, placeOf_eq_iff hroots hapart hcall hmem, hcounting, if_true,
        List.filter_append]
      by_cases hfor : other.IsFor call.target call.path
      · simp [hfor, Call.content?, hfile]
      · simp [hfor, ih]

/-! ### One owner for each path -/

/-- However calls are interleaved, a path of a target belongs for good to the source that claimed it
first. A call is refused, and told this owner, if and only if it is by another source, and then it
changes nothing. The counter is the number of files written. Below roots that lead to places apart,
the file at the place of a path holds what was put there last, always by its owner, or else what it
held at the start. -/
theorem one_owner_per_path (h : Run (Calls.start calls tree) placed s)
    (hroots : HaveRoots rootOf calls) (hapart : HaveApartRoots rootOf tree calls) :
    (∀ placed' s', Run s placed' s' → ∀ target path path' owner, path.same path' = true →
      s.outputs.owner? target path = some owner → s'.outputs.owner? target path' = some owner) ∧
    (∀ call stage, (call, stage) ∈ s.calls → stage ≠ .claiming →
      call.IsDecided s.outputs stage) ∧
    (∀ call owner, (call, .claiming) ∈ s.calls →
      s.outputs.owner? call.target call.path = some owner → owner.same call.source = false →
      ∀ o t stage, call.Step s.outputs s.tree .claiming o t stage ↔ o = s.outputs ∧ t = s.tree ∧
        stage = .returned (.error (.collision call.target call.path owner))) ∧
    s.outputs.written = s.calls.countP (·.2.isWritten) ∧
    placed.Perm ((s.calls.filter (·.2.isPlaced)).map Prod.fst) ∧
    (∀ call ∈ placed, ∃ owner, s.outputs.owner? call.target call.path = some owner ∧
      owner.same call.source = true) ∧
    ∀ call ∈ calls, s.tree.content? (placeOf rootOf tree call) =
      ((placed.filter (·.IsFor call.target call.path)).getLast?.bind Call.content?).or
        (tree.content? (placeOf rootOf tree call)) := by
  refine ⟨?_, fun call stage => h.isDecided _, ?_, h.written, h.perm_placed, ?_,
    fun call => h.content? hroots hapart⟩
  · intro placed' s' h' target path path' owner hsame howner
    rw [← Outputs.owner?_congr hsame]
    exact h'.owner? howner
  · exact fun call owner _ howner hsame o t stage =>
      Call.step_claiming_iff_of_not_same howner hsame
  · intro call hcall
    obtain ⟨⟨call, stage⟩, hentry, rfl⟩ := List.mem_map.mp (h.perm_placed.mem_iff.mp hcall)
    obtain ⟨hmem, hplaced⟩ := List.mem_filter.mp hentry
    -- a call that was refused has put nothing in place
    have hstage : stage ≠ .claiming := by
      rintro rfl
      simp [Call.Stage.isPlaced] at hplaced
    obtain ⟨owner, howner, ⟨hsame, -⟩ | ⟨-, hrefused⟩⟩ := h.isDecided _ hmem hstage
    · exact ⟨owner, howner, hsame⟩
    · rw [hrefused] at hplaced
      simp [Call.Stage.isPlaced] at hplaced

/-- Two sources want the same path of one target, and one of them the same path of another. -/
def contested : List Call :=
  [⟨"esm", ⟨"d/a.js"⟩, ⟨"a.ts"⟩, some (⟨"/esm"⟩, "A".toUTF8)⟩,
    ⟨"esm", ⟨"d//a.js"⟩, ⟨"a.js"⟩, some (⟨"/esm"⟩, "B".toUTF8)⟩,
    ⟨"cjs", ⟨"d/a.js"⟩, ⟨"a.js"⟩, some (⟨"/cjs"⟩, "C".toUTF8)⟩]

/-- The root of each target is the directory of its name. -/
def rootNamed (target : String) : Path := ⟨"/" ++ target⟩

/-- The first source gets the path, the second one is refused, and the third one has its own. -/
theorem contested_one_owner : ∃ s,
    Run (Calls.start contested Tree.empty) [contested[0], contested[2]] s ∧
    HaveRoots rootNamed contested ∧ HaveApartRoots rootNamed Tree.empty contested ∧
    s.calls.map Prod.snd =
      [.returned (.ok (some ⟨"/esm/d/a.js"⟩)),
        .returned (.error (.collision "esm" ⟨"d//a.js"⟩ ⟨"a.ts"⟩)),
        .returned (.ok (some ⟨"/cjs/d/a.js"⟩))] ∧
    s.outputs.written = 2 ∧
    s.tree.content? ["esm", "d", "a.js"] = some "A".toUTF8 ∧
    s.tree.content? ["cjs", "d", "a.js"] = some "C".toUTF8 := by
  have hroots : HaveRoots rootNamed contested :=
    haveRoots_of_all ["d", "a.js"] (by decide +kernel) (by decide +kernel)
  have hapart : HaveApartRoots rootNamed Tree.empty contested := by
    unfold HaveApartRoots
    decide +kernel
  have hrun := ((run_alone (s := Calls.start contested Tree.empty) (i := 0) rfl).trans
    (run_alone (i := 1) rfl)).trans (run_alone (i := 2) rfl)
  obtain ⟨-, -, -, hwritten, -, -, hcontent⟩ := one_owner_per_path hrun hroots hapart
  have hesm := hcontent contested[0] (by decide +kernel)
  have hcjs := hcontent contested[2] (by decide +kernel)
  have hplaces : placeOf rootNamed Tree.empty contested[0] = ["esm", "d", "a.js"] ∧
      placeOf rootNamed Tree.empty contested[2] = ["cjs", "d", "a.js"] := by decide +kernel
  rw [hplaces.1] at hesm
  rw [hplaces.2] at hcjs
  exact ⟨_, by convert hrun using 1; decide +kernel, hroots, hapart, by decide +kernel,
    hwritten.trans (by decide +kernel), hesm.trans (by decide +kernel),
    hcjs.trans (by decide +kernel)⟩

/-- One target claims a path, and another one writes a file of the same name. -/
def crossed : List Call :=
  [⟨"esm", ⟨"f.js"⟩, ⟨"a.js"⟩, none⟩,
    ⟨"cjs", ⟨"f.js"⟩, ⟨"b.js"⟩, some (⟨"/x/../out"⟩, "B".toUTF8)⟩]

/-- The roots of two targets; a double dot leads from one to the other. -/
def crossedRoot (target : String) : Path := if target = "esm" then ⟨"/out"⟩ else ⟨"/x/../out"⟩

/-- A tree with an older file at the path that is claimed. -/
def crossedTree : Tree :=
  ⟨[(["x"], .directory), (["out"], .directory), (["out", "f.js"], .file "I".toUTF8)], []⟩

/-- Below roots of which neither is written as a beginning of the other, the file at a path can
still be replaced by a source that does not own the path. -/
theorem crossed_not_one_owner : ∃ s,
    Run (Calls.start crossed crossedTree) [crossed[1]] s ∧
    HaveRoots crossedRoot crossed ∧
    (∀ call ∈ crossed, ∀ call' ∈ crossed, call.target ≠ call'.target →
      (crossedRoot call.target).startsWith (crossedRoot call'.target) = false) ∧
    s.outputs.owner? "esm" ⟨"f.js"⟩ = some ⟨"a.js"⟩ ∧
    ¬crossed[1].IsFor "esm" ⟨"f.js"⟩ ∧
    crossedTree.content? (placeOf crossedRoot crossedTree crossed[0]) = some "I".toUTF8 ∧
    s.tree.content? (placeOf crossedRoot crossedTree crossed[0]) = some "B".toUTF8 := by
  have hroots : HaveRoots crossedRoot crossed :=
    haveRoots_of_all ["f.js"] (by decide +kernel) (by decide +kernel)
  have hrun := (run_alone (s := Calls.start crossed crossedTree) (i := 0) rfl).trans
    (run_alone (i := 1) rfl)
  exact ⟨_, by convert hrun using 1; decide +kernel, hroots, by decide +kernel,
    by decide +kernel, by decide +kernel, by decide +kernel, by decide +kernel⟩

end Calls

end Filewise

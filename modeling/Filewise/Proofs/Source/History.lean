import Filewise.Source
import Mathlib.Data.List.Count
import Mathlib.Tactic.Common

/-!
# Histories of source files

The content of a source file is asked for, and others come to need it or are done with it, in any
order, while the file tree changes as it likes. What was read once is given to everybody who asks
until the last one who needs it is done with it; then it is dropped, and whoever asks next gets what
is in the tree by then. A failure to read is given to everybody who asks later.

## Main definitions

* `Source.Use`: what is done with a source file.
* `Source.after`: the source file after a history of uses.
* `Source.NoneIsLast`: nobody who is done with the file is the last one who needs it.
* `Source.found`: what the tree holds.

## Main results

* `Source.remembers`: what a history makes of a source file.
-/

namespace Filewise.Source

/-- What is done with a source file. Its content is asked for in the tree as it is by then. -/
inductive Use where
  | ask (tree : Tree)
  | retain
  | release

/-- A source file after one use. -/
def use (x : Source) : Use → Source
  | .ask tree => (x.read tree).1
  | .retain => x.retain
  | .release => x.release

/-- A source file after some uses, one after the other. -/
def after (x : Source) (uses : List Use) : Source := uses.foldl use x

/-- One more comes to need the file. -/
def Use.isRetain : Use → Bool
  | .retain => true
  | _ => false

/-- The content of the file is asked for. -/
def Use.isAsk : Use → Bool
  | .ask _ => true
  | _ => false

/-- One of those who need the file is done with it. If there is none, it makes no difference that
somebody is done with it. -/
def isReleasedBy (x : Source) : Use → Bool
  | .release => 0 < x.users
  | _ => false

/-- How many of those who need a file are done with it in the course of some uses. -/
def releases (x : Source) : List Use → Nat
  | [] => 0
  | use :: uses => (if x.isReleasedBy use then 1 else 0) + releases (x.use use) uses

/-- In the course of some uses nobody who is done with a file is the last one who needs it. -/
def NoneIsLast (x : Source) (uses : List Use) : Prop :=
  ∀ earlier later, uses = earlier ++ .release :: later → (x.after earlier).users ≠ 1

/-- What the tree holds at a path, as it is given to those who ask. -/
def found (tree : Tree) (path : Path) : Except BuildError ByteArray :=
  (tree.read path).mapError fun e => .io path (.system e)

variable {x : Source} {tree : Tree} {bytes : ByteArray} {e : SystemError} {uses : List Use}

@[simp] theorem after_nil (x : Source) : x.after [] = x := rfl

@[simp] theorem after_cons (x : Source) (use : Use) (uses : List Use) :
    x.after (use :: uses) = (x.use use).after uses := rfl

theorem NoneIsLast.tail {use : Use} (h : x.NoneIsLast (use :: uses)) :
    (x.use use).NoneIsLast uses := by
  intro earlier later huses
  exact h (use :: earlier) later (by rw [huses, List.cons_append])

theorem NoneIsLast.users_ne_one (h : x.NoneIsLast (.release :: uses)) : x.users ≠ 1 :=
  h [] uses rfl

/-! ### One use -/

/-- Nothing is known of the content of a source file. -/
def IsUnknown (x : Source) : Prop := x.content = .unread ∨ x.content = .released

theorem users_drop (x : Source) : x.drop.users = x.users := by
  unfold drop
  split_ifs <;> rfl

theorem absolute_drop (x : Source) : x.drop.absolute = x.absolute := by
  unfold drop
  split_ifs <;> rfl

/-- Only the last one who needs the content drops it. -/
theorem content_release_of_ne_one (h : x.users ≠ 1) : x.release.content = x.content := by
  rw [release, if_neg h]
  rfl

theorem isUnknown_release (h : x.isLoaded = true) (hone : x.users = 1) : x.release.IsUnknown := by
  rw [release, if_pos hone, drop, if_pos (show x.forget.isLoaded = true from h)]
  exact Or.inr rfl

theorem users_release (x : Source) : x.release.users = x.users - 1 := by
  unfold release
  split_ifs
  · rw [users_drop]
    rfl
  · rfl

theorem content_release_of_not_isLoaded (h : x.isLoaded = false) :
    x.release.content = x.content := by
  by_cases hone : x.users = 1
  · have hforget : ¬x.forget.isLoaded = true := by
      rw [show x.forget.isLoaded = x.isLoaded from rfl, h]
      simp
    rw [release, if_pos hone, drop, if_neg hforget]
    rfl
  · exact content_release_of_ne_one hone

theorem IsUnknown.isLoaded_eq_false (h : x.IsUnknown) : x.isLoaded = false := by
  rcases h with h | h <;> rw [isLoaded, h]

@[simp] theorem absolute_use (x : Source) (use : Use) : (x.use use).absolute = x.absolute := by
  cases use with
  | ask | retain => rfl
  | release =>
    unfold Source.use release
    split_ifs
    · exact absolute_drop _
    · rfl

/-- Who comes to need a file and who is done with it make up for those who need it. -/
theorem users_use (x : Source) (use : Use) :
    (x.use use).users + (if x.isReleasedBy use then 1 else 0) =
      x.users + if use.isRetain then 1 else 0 := by
  cases use with
  | ask | retain => rfl
  | release =>
    -- where nobody needs the file, nobody is taken away
    change x.release.users + (if decide (0 < x.users) = true then 1 else 0) = x.users
    rw [users_release]
    split_ifs with hpos <;> simp only [decide_eq_true_eq] at hpos <;> omega

theorem read_of_loaded (h : x.content = .loaded bytes) (tree : Tree) :
    x.read tree = (x, .ok bytes) := by
  cases x
  subst h
  rfl

theorem read_of_failed (h : x.content = .failed e) (tree : Tree) :
    x.read tree = (x, .error (.io x.absolute (.system e))) := by
  cases x
  subst h
  rfl

/-- Content that is not known is read from the tree. -/
theorem IsUnknown.refreshed_eq (h : x.IsUnknown) (tree : Tree) :
    x.refreshed tree = x.load tree := by
  rcases h with h | h <;> simp only [refreshed, h]

/-- Who asks for content that is not known gets what is in the tree. -/
theorem IsUnknown.read_eq (h : x.IsUnknown) (tree : Tree) :
    (x.read tree).2 = found tree x.absolute := by
  rw [read, h.refreshed_eq, load, found]
  cases tree.read x.absolute <;> rfl

/-- Whoever asks for content leaves what was found with the file. -/
theorem content_use_ask (x : Source) (tree : Tree) :
    (∃ bytes, (x.use (.ask tree)).content = .loaded bytes ∧ (x.read tree).2 = .ok bytes) ∨
      ∃ e, (x.use (.ask tree)).content = .failed e ∧
        (x.read tree).2 = .error (.io x.absolute (.system e)) := by
  cases hcontent : x.content with
  | loaded bytes =>
    refine Or.inl ⟨bytes, ?_, ?_⟩
    · rw [use, read_of_loaded hcontent, hcontent]
    · rw [read_of_loaded hcontent]
  | failed e =>
    refine Or.inr ⟨e, ?_, ?_⟩
    · rw [use, read_of_failed hcontent, hcontent]
    · rw [read_of_failed hcontent]
  | unread | released =>
    have hunknown : x.IsUnknown := by simp [IsUnknown, hcontent]
    have hload : (x.use (.ask tree)).content = x.load tree := hunknown.refreshed_eq tree
    rw [hload, hunknown.read_eq, load, found]
    cases hread : tree.read x.absolute with
    | ok bytes => exact Or.inl ⟨bytes, rfl, rfl⟩
    | error e => exact Or.inr ⟨e, rfl, rfl⟩

/-! ### Histories -/

@[simp] theorem absolute_after (x : Source) (uses : List Use) :
    (x.after uses).absolute = x.absolute := by
  induction uses generalizing x with
  | nil => rfl
  | cons use uses ih => rw [after_cons, ih, absolute_use]

/-- Those who came to need a file are those who still need it and those who are done with it. -/
theorem users_after (x : Source) (uses : List Use) :
    (x.after uses).users + x.releases uses = x.users + uses.countP Use.isRetain := by
  induction uses generalizing x with
  | nil => rfl
  | cons use uses ih =>
    have hrest := ih (x.use use)
    have hfirst := users_use x use
    rw [after_cons, releases, List.countP_cons]
    omega

/-- Content that was read stays until the last one who needs it is done with it. -/
theorem content_after_of_loaded (h : x.content = .loaded bytes) (hlast : x.NoneIsLast uses) :
    (x.after uses).content = .loaded bytes := by
  induction uses generalizing x with
  | nil => exact h
  | cons use uses ih =>
    refine ih ?_ hlast.tail
    cases use with
    | ask tree => rw [Source.use, read_of_loaded h, h]
    | retain => exact h
    | release => rw [Source.use, content_release_of_ne_one hlast.users_ne_one, h]

/-- A failure to read stays. -/
theorem content_after_of_failed (h : x.content = .failed e) (uses : List Use) :
    (x.after uses).content = .failed e := by
  induction uses generalizing x with
  | nil => exact h
  | cons use uses ih =>
    refine ih ?_
    cases use with
    | ask tree => rw [Source.use, read_of_failed h, h]
    | retain => exact h
    | release =>
      have hloaded : x.isLoaded = false := by rw [isLoaded, h]
      rw [Source.use, content_release_of_not_isLoaded hloaded, h]

/-- Nothing becomes known of content that nobody asks for. -/
theorem IsUnknown.after (h : x.IsUnknown) (hask : ∀ use ∈ uses, use.isAsk = false) :
    (x.after uses).IsUnknown := by
  induction uses generalizing x with
  | nil => exact h
  | cons use uses ih =>
    refine ih ?_ fun use huse => hask use (List.mem_cons_of_mem _ huse)
    cases use with
    | ask tree => simp [Use.isAsk] at hask
    | retain => exact h
    | release =>
      rw [IsUnknown, Source.use, content_release_of_not_isLoaded h.isLoaded_eq_false]
      exact h

/-- What was read stays what everybody gets who asks, as long as nobody who is done with the file is
the last one who needs it. -/
theorem read_after_of_ok (h : (x.read tree).2 = .ok bytes)
    (hlast : (x.use (.ask tree)).NoneIsLast uses) (tree' : Tree) :
    (((x.use (.ask tree)).after uses).read tree').2 = .ok bytes := by
  obtain ⟨bytes', hcontent, hread⟩ | ⟨e, -, hread⟩ := content_use_ask x tree
  · obtain rfl : bytes' = bytes := Except.ok.inj (hread.symm.trans h)
    rw [read_of_loaded (content_after_of_loaded hcontent hlast)]
  · exact nomatch hread.symm.trans h

/-- Everybody who asks after a failure to read gets this failure. -/
theorem read_after_of_error {e : BuildError} (h : (x.read tree).2 = .error e) (uses : List Use)
    (tree' : Tree) : (((x.use (.ask tree)).after uses).read tree').2 = .error e := by
  obtain ⟨bytes, -, hread⟩ | ⟨e', hcontent, hread⟩ := content_use_ask x tree
  · exact nomatch hread.symm.trans h
  · rw [read_of_failed (content_after_of_failed hcontent uses), absolute_after, absolute_use]
    exact hread.symm.trans h

/-- What becomes of a source file in the course of any uses, in trees that change as they like:

* those who still need it and those who are done with it are those who came to need it;
* what was read is given to everybody who asks, until the last one who needs it is done with it;
* when the last one is done with content that is there, the content is dropped, and the next one who
  asks gets what the tree holds by then;
* nobody else who is done with the file changes what is known of its content;
* a failure to read is given to everybody who asks later;
* the first one who asks gets what the tree holds. -/
theorem remembers {absolute relative : Path} (h : x = (new absolute relative).after uses) :
    x.users + (new absolute relative).releases uses = uses.countP Use.isRetain ∧
    (∀ tree bytes later, (x.read tree).2 = .ok bytes →
      (x.use (.ask tree)).NoneIsLast later →
      ∀ tree', (((x.use (.ask tree)).after later).read tree').2 = .ok bytes) ∧
    (∀ later, x.isLoaded = true → x.users = 1 → (∀ use ∈ later, use.isAsk = false) →
      (x.release.after later).isLoaded = false ∧
      ∀ tree, ((x.release.after later).read tree).2 = found tree absolute) ∧
    (x.users ≠ 1 → x.release.content = x.content) ∧
    (∀ tree e later, (x.read tree).2 = .error e →
      ∀ tree', (((x.use (.ask tree)).after later).read tree').2 = .error e) ∧
    ((∀ use ∈ uses, use.isAsk = false) → ∀ tree, (x.read tree).2 = found tree absolute) := by
  have habsolute : x.absolute = absolute := by
    rw [h, absolute_after]
    rfl
  -- what is not known to begin with, or not known any more, is read from the tree
  refine ⟨?_, fun _ _ _ hread hlast => read_after_of_ok hread hlast, ?_, content_release_of_ne_one,
    fun _ _ later hread => read_after_of_error hread later, ?_⟩
  · have husers := users_after (new absolute relative) uses
    rw [← h] at husers
    exact husers.trans (Nat.zero_add _)
  · intro later hloaded hone hask
    have hunknown := (isUnknown_release hloaded hone).after hask
    refine ⟨hunknown.isLoaded_eq_false, fun tree => ?_⟩
    rw [hunknown.read_eq, absolute_after, ← habsolute]
    exact congrArg (found tree) (absolute_use x .release)
  · intro hask tree
    have hnew : (new absolute relative).IsUnknown := Or.inl rfl
    have hunknown := hnew.after hask
    rw [← h] at hunknown
    rw [hunknown.read_eq, habsolute]

/-- A tree of one file. -/
def oneFile (bytes : ByteArray) : Tree := Tree.empty.put ["a"] (.file bytes)

/-- A source file that was read for the one who needs it. -/
def readOnce : Source := (new ⟨"/a"⟩ ⟨"a"⟩).after [.retain, .ask (oneFile ⟨#[1]⟩)]

theorem readOnce_noneIsLast :
    (readOnce.use (.ask (oneFile ⟨#[2]⟩))).NoneIsLast [.retain, .release] := by
  intro earlier later huses
  match earlier with
  | [] => simp at huses
  | [first] =>
    obtain ⟨rfl, -⟩ := List.cons.inj huses
    decide +kernel
  | first :: second :: rest => simp at huses

/-- The file changes after it was read. Whoever asks while somebody needs the file gets the old
content, and whoever asks after that gets the new content. -/
theorem readOnce_remembers :
    ((((readOnce.use (.ask (oneFile ⟨#[2]⟩))).after [.retain, .release]).read
      (oneFile ⟨#[2]⟩)).2 = .ok ⟨#[1]⟩) ∧
    readOnce.isLoaded = true ∧ readOnce.users = 1 ∧
    (readOnce.release.read (oneFile ⟨#[2]⟩)).2 = .ok ⟨#[2]⟩ := by
  have hhistory : readOnce = (new ⟨"/a"⟩ ⟨"a"⟩).after [.retain, .ask (oneFile ⟨#[1]⟩)] := rfl
  obtain ⟨-, hkept, hdropped, -⟩ := remembers hhistory
  have hloaded : readOnce.isLoaded = true := by decide +kernel
  have hone : readOnce.users = 1 := by decide +kernel
  refine ⟨hkept _ _ _ ?_ readOnce_noneIsLast _, hloaded, hone, ?_⟩
  · decide +kernel
  · exact ((hdropped [] hloaded hone (by simp)).2 _).trans (by decide +kernel)

end Filewise.Source

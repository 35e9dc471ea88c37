import Filewise.Engine.Simple
import Filewise.Pool
import Mathlib.Tactic.Common

/-!
# Chains of conversions

The steps of a unit convert a text one after the other. The transformer of a step is made when its
turn comes, from the options of that step, and gets what the step before it has made. The first step
whose transformer cannot be made, or refuses its text, ends the work, and it is the one that the
error names; what comes after it does not matter. So a chain can be cut anywhere: what all of it
makes of a source is what the second part makes of the text that the first part has made.

## Main definitions

* `PlannedStep.Converts`, `PlannedStep.Refuses`: what becomes of a text at one step.
* `Converts`: steps that convert a text one after the other.
* `StopsAt`: the first step that refuses what it gets.

## Main results

* `runSteps_eq_ok_iff`, `runSteps_eq_error_iff`: what steps make of a text, or where they stop.
* `Shared.convert_composes`: chains compose.
-/

namespace Filewise

/-! ### One step -/

namespace PlannedStep

/-- What the transformer of a step is made from. -/
def placement (step : PlannedStep) (t : Target) : Placement := ⟨t.id, step.options, t⟩

/-- The transformer of a step can be made and makes another text of the one that it gets. -/
def Converts (t : Target) (step : PlannedStep) (text out : String) : Prop :=
  ∃ conversion, step.transformer.make (step.placement t) = .ok conversion ∧
    conversion text = .ok out

/-- The transformer of a step cannot be made, or it refuses the text that it gets. -/
inductive Refuses (t : Target) (step : PlannedStep) (text reason : String) : Prop
  | notMade : step.transformer.make (step.placement t) = .error reason →
      Refuses t step text reason
  | refused {conversion} : step.transformer.make (step.placement t) = .ok conversion →
      conversion text = .error reason → Refuses t step text reason

variable {t : Target} {step : PlannedStep} {text out reason : String}

theorem run_eq_ok_iff :
    step.transformer.run (step.placement t) text = .ok out ↔ step.Converts t text out := by
  unfold Transformer.run Converts
  cases step.transformer.make (step.placement t) <;> simp [bind, Except.bind]

theorem run_eq_error_iff :
    step.transformer.run (step.placement t) text = .error reason ↔
      step.Refuses t text reason := by
  unfold Transformer.run
  constructor
  · intro h
    cases hmake : step.transformer.make (step.placement t) with
    | error reason' =>
      rw [hmake] at h
      obtain rfl := Except.error.inj h
      exact .notMade hmake
    | ok conversion =>
      rw [hmake] at h
      exact .refused hmake h
  · rintro (hmake | ⟨hmake, hrefused⟩)
    · rw [hmake]
      rfl
    · rw [hmake]
      exact hrefused

end PlannedStep

/-! ### Steps one after the other -/

/-- Steps convert a text one after the other, each of them what the one before it has made. -/
inductive Converts (t : Target) : List PlannedStep → String → String → Prop
  | nil {text} : Converts t [] text text
  | cons {step steps text middle out} : step.Converts t text middle →
      Converts t steps middle out → Converts t (step :: steps) text out

/-- The steps before a step convert a text, and that step refuses what they make of it. -/
inductive StopsAt (t : Target) (before : List PlannedStep) (text : String) (step : PlannedStep)
    (reason : String) : Prop
  | intro {middle} : Converts t before text middle → step.Refuses t middle reason →
      StopsAt t before text step reason

variable {t : Target} {step : PlannedStep} {steps xs ys : List PlannedStep} {text out : String}
  {e : BuildError}

theorem runSteps_nil : runSteps t [] text = .ok text := rfl

theorem runSteps_cons_of_converts {middle : String} (h : step.Converts t text middle)
    (steps : List PlannedStep) : runSteps t (step :: steps) text = runSteps t steps middle := by
  have hrun := PlannedStep.run_eq_ok_iff.mpr h
  unfold PlannedStep.placement at hrun
  rw [runSteps, List.foldlM_cons, hrun]
  rfl

theorem runSteps_cons_of_refuses {reason : String} (h : step.Refuses t text reason)
    (steps : List PlannedStep) :
    runSteps t (step :: steps) text = .error (.contentTransform step.transformer.id reason) := by
  have hrun := PlannedStep.run_eq_error_iff.mpr h
  unfold PlannedStep.placement at hrun
  rw [runSteps, List.foldlM_cons, hrun]
  rfl

theorem runSteps_append (xs ys : List PlannedStep) (text : String) :
    runSteps t (xs ++ ys) text = runSteps t xs text >>= runSteps t ys :=
  List.foldlM_append

/-- A step converts a text or refuses it. -/
theorem PlannedStep.converts_or_refuses (t : Target) (step : PlannedStep) (text : String) :
    (∃ out, step.Converts t text out) ∨ ∃ reason, step.Refuses t text reason := by
  cases hrun : step.transformer.run (step.placement t) text with
  | ok out => exact Or.inl ⟨out, PlannedStep.run_eq_ok_iff.mp hrun⟩
  | error reason => exact Or.inr ⟨reason, PlannedStep.run_eq_error_iff.mp hrun⟩

/-- What steps make of a text. -/
theorem runSteps_eq_ok_iff : runSteps t steps text = .ok out ↔ Converts t steps text out := by
  constructor
  · intro h
    induction steps generalizing text with
    | nil =>
      obtain rfl := Except.ok.inj h
      exact .nil
    | cons step steps ih =>
      rcases step.converts_or_refuses t text with ⟨middle, hstep⟩ | ⟨reason, hstep⟩
      · rw [runSteps_cons_of_converts hstep] at h
        exact .cons hstep (ih h)
      · simp [runSteps_cons_of_refuses hstep] at h
  · intro h
    induction h with
    | nil => rfl
    | cons hstep _ ih => rw [runSteps_cons_of_converts hstep, ih]

/-- Steps fail at the first one that refuses what it gets. -/
theorem runSteps_eq_error_iff : runSteps t steps text = .error e ↔
    ∃ before step after reason, steps = before ++ step :: after ∧
      StopsAt t before text step reason ∧ e = .contentTransform step.transformer.id reason := by
  constructor
  · intro h
    induction steps generalizing text with
    | nil => simp [runSteps_nil] at h
    | cons step steps ih =>
      rcases step.converts_or_refuses t text with ⟨middle, hstep⟩ | ⟨reason, hstep⟩
      · rw [runSteps_cons_of_converts hstep] at h
        obtain ⟨before, failing, after, reason, rfl, ⟨hbefore, hrefuses⟩, rfl⟩ := ih h
        exact ⟨step :: before, failing, after, reason, rfl,
          ⟨.cons hstep hbefore, hrefuses⟩, rfl⟩
      · rw [runSteps_cons_of_refuses hstep] at h
        exact ⟨[], step, steps, reason, rfl, ⟨.nil, hstep⟩, (Except.error.inj h).symm⟩
  · rintro ⟨before, step, after, reason, rfl, ⟨hbefore, hrefuses⟩, rfl⟩
    rw [runSteps_append, runSteps_eq_ok_iff.mpr hbefore]
    exact runSteps_cons_of_refuses hrefuses after

/-- Steps convert a text if the first of them do and the others convert what these have made. -/
theorem converts_append_iff :
    Converts t (xs ++ ys) text out ↔
      ∃ middle, Converts t xs text middle ∧ Converts t ys middle out := by
  rw [← runSteps_eq_ok_iff, runSteps_append]
  constructor
  · intro h
    cases hxs : runSteps t xs text with
    | error e => simp [hxs, bind, Except.bind] at h
    | ok middle =>
      rw [hxs] at h
      exact ⟨middle, runSteps_eq_ok_iff.mp hxs, runSteps_eq_ok_iff.mp h⟩
  · rintro ⟨middle, hxs, hys⟩
    rw [runSteps_eq_ok_iff.mpr hxs]
    exact runSteps_eq_ok_iff.mpr hys

/-! ### Sources -/

/-- Bytes are read as the text that they encode. -/
theorem Utf8.decode_eq_ok_iff {raw : ByteArray} :
    Utf8.decode raw = .ok text ↔ raw = text.toUTF8 := by
  unfold Utf8.decode String.fromUTF8?
  by_cases hvalid : raw.IsValidUTF8
  · simp only [dif_pos hvalid, Except.ok.injEq]
    constructor
    · rintro rfl
      rfl
    · rintro rfl
      rfl
  · simp only [dif_neg hvalid, reduceCtorEq, false_iff]
    rintro rfl
    exact hvalid text.isValidUTF8

theorem toUTF8_inj {text out : String} (h : text.toUTF8 = out.toUTF8) : text = out :=
  String.toByteArray_inj.mp h

/-- A source that encodes no text is refused with its first fault. -/
theorem Utf8.exists_decode_eq_error {raw : ByteArray} (h : ∀ text : String, raw ≠ text.toUTF8) :
    ∃ fault, Utf8.decode raw = .error fault := by
  cases hdecode : Utf8.decode raw with
  | ok text => exact absurd (Utf8.decode_eq_ok_iff.mp hdecode) (h text)
  | error fault => exact ⟨fault, rfl⟩

/-- Why a source is not converted: it is no text although there are steps, which is the fault of the
first of them, or one of the steps refuses what those before it make of the text. -/
inductive FailsWith (t : Target) (raw : ByteArray) : List PlannedStep → BuildError → Prop
  | notText {first rest fault} : (∀ text : String, raw ≠ text.toUTF8) →
      Utf8.decode raw = .error fault →
      FailsWith t raw (first :: rest) (.contentTransform first.transformer.id
        ("source is not valid UTF-8: " ++ fault.message))
  | step {text before step after reason} : raw = text.toUTF8 →
      StopsAt t before text step reason →
      FailsWith t raw (before ++ step :: after) (.contentTransform step.transformer.id reason)

variable {raw content : ByteArray}

/-- A source that steps work on is read as a text first. -/
theorem convert_toUTF8 (hsteps : steps ≠ []) (text : String) :
    convert t steps text.toUTF8 = String.toUTF8 <$> runSteps t steps text := by
  obtain ⟨first, rest, rfl⟩ := List.exists_cons_of_ne_nil hsteps
  rw [convert, Utf8.decode_eq_ok_iff.mpr rfl]

theorem convert_toUTF8_eq_ok_iff (hsteps : steps ≠ []) :
    convert t steps text.toUTF8 = .ok content ↔
      ∃ out, Converts t steps text out ∧ content = out.toUTF8 := by
  rw [convert_toUTF8 hsteps]
  cases hrun : runSteps t steps text with
  | error e =>
    refine ⟨fun h => by simp at h, ?_⟩
    rintro ⟨out, hout, -⟩
    simp [runSteps_eq_ok_iff.mpr hout] at hrun
  | ok out =>
    constructor
    · intro h
      exact ⟨out, runSteps_eq_ok_iff.mp hrun, (Except.ok.inj h).symm⟩
    · rintro ⟨out', hout', rfl⟩
      obtain rfl := Except.ok.inj (hrun.symm.trans (runSteps_eq_ok_iff.mpr hout'))
      rfl

theorem convert_toUTF8_eq_error_iff (hsteps : steps ≠ []) :
    convert t steps text.toUTF8 = .error e ↔ runSteps t steps text = .error e := by
  rw [convert_toUTF8 hsteps]
  cases runSteps t steps text <;> simp [Functor.map, Except.map]

/-- What is no text is not converted. -/
theorem convert_of_not_text {first : PlannedStep} {fault : Utf8.Fault}
    (h : Utf8.decode raw = .error fault) (rest : List PlannedStep) :
    convert t (first :: rest) raw = .error (.contentTransform first.transformer.id
      ("source is not valid UTF-8: " ++ fault.message)) := by
  rw [convert, h]

/-- Why a source is not converted. -/
theorem convert_eq_error_iff : convert t steps raw = .error e ↔ FailsWith t raw steps e := by
  constructor
  · intro h
    cases steps with
    | nil => simp [convert] at h
    | cons first rest =>
      by_cases htext : ∃ text : String, raw = text.toUTF8
      · obtain ⟨text, rfl⟩ := htext
        rw [convert_toUTF8_eq_error_iff (by simp), runSteps_eq_error_iff] at h
        obtain ⟨before, step, after, reason, hsteps, hstops, rfl⟩ := h
        rw [hsteps]
        exact .step rfl hstops
      · have hnot : ∀ text : String, raw ≠ text.toUTF8 := fun text heq => htext ⟨text, heq⟩
        obtain ⟨fault, hfault⟩ := Utf8.exists_decode_eq_error hnot
        rw [convert_of_not_text hfault] at h
        obtain rfl := Except.error.inj h
        exact .notText hnot hfault
  · rintro (⟨-, hfault⟩ | ⟨rfl, hstops⟩)
    · exact convert_of_not_text hfault _
    · rw [convert_toUTF8_eq_error_iff (by simp)]
      exact runSteps_eq_error_iff.mpr ⟨_, _, _, _, rfl, hstops, rfl⟩

/-! ### Chains that are cut -/

/-- What all of a chain makes of a source is what its second part makes of the text that its first
part has made. -/
theorem convert_append_eq_ok_iff (hxs : xs ≠ []) : convert t (xs ++ ys) raw = .ok content ↔
    ∃ text out, convert t xs raw = .ok (String.toUTF8 text) ∧ Converts t ys text out ∧
      content = out.toUTF8 := by
  by_cases htext : ∃ text : String, raw = text.toUTF8
  · obtain ⟨text, rfl⟩ := htext
    have hall : xs ++ ys ≠ [] := List.append_ne_nil_of_left_ne_nil hxs ys
    simp only [convert_toUTF8_eq_ok_iff hxs, convert_toUTF8_eq_ok_iff hall, converts_append_iff]
    constructor
    · rintro ⟨out, ⟨middle, hfirst, hsecond⟩, rfl⟩
      exact ⟨middle, out, ⟨middle, hfirst, rfl⟩, hsecond, rfl⟩
    · rintro ⟨middle, out, ⟨middle', hfirst, heq⟩, hsecond, rfl⟩
      obtain rfl := toUTF8_inj heq
      exact ⟨out, ⟨middle, hfirst, hsecond⟩, rfl⟩
  · have hnot : ∀ text : String, raw ≠ text.toUTF8 := fun text heq => htext ⟨text, heq⟩
    obtain ⟨fault, hfault⟩ := Utf8.exists_decode_eq_error hnot
    obtain ⟨first, rest, rfl⟩ := List.exists_cons_of_ne_nil hxs
    rw [List.cons_append, convert_of_not_text hfault, convert_of_not_text hfault]
    simp

/-- A chain fails like its first part, whatever comes after. -/
theorem convert_append_eq_error (h : convert t xs raw = .error e) (ys : List PlannedStep) :
    convert t (xs ++ ys) raw = .error e := by
  rw [convert_eq_error_iff] at h ⊢
  cases h with
  | notText hnot hfault => exact .notText hnot hfault
  | step htext hstops =>
    rw [List.append_assoc, List.cons_append]
    exact .step htext hstops

/-! ### Units -/

/-- A unit with other steps. -/
def PlannedUnit.withSteps (u : PlannedUnit) (steps : List PlannedStep) : PlannedUnit :=
  { u with steps }

namespace Shared

variable {c : BuildConfig} {s : Shared} {u : PlannedUnit}

/-- What a unit makes of its source, whose target is known and whose source can be read. -/
theorem convert_of_read (ht : c.targetOf u (s.source u).relative = .ok t)
    (hraw : (s.read u).2 = .ok raw) :
    (s.convert c u).2 = (t, ·) <$> Filewise.convert t u.steps raw := by
  unfold convert
  rw [ht]
  rcases hread : s.read u with ⟨s', answer⟩
  obtain rfl : answer = .ok raw := by rw [← hraw, hread]
  rfl

/-- A unit succeeds with what its chain makes of the source. -/
theorem convert_eq_ok_iff (ht : c.targetOf u (s.source u).relative = .ok t)
    (hraw : (s.read u).2 = .ok raw) :
    (s.convert c u).2 = .ok (t, content) ↔ Filewise.convert t u.steps raw = .ok content := by
  rw [convert_of_read ht hraw]
  cases Filewise.convert t u.steps raw <;> simp [Functor.map, Except.map]

/-- A unit fails as its chain does. -/
theorem convert_eq_error_iff (ht : c.targetOf u (s.source u).relative = .ok t)
    (hraw : (s.read u).2 = .ok raw) :
    (s.convert c u).2 = .error e ↔ Filewise.convert t u.steps raw = .error e := by
  rw [convert_of_read ht hraw]
  cases Filewise.convert t u.steps raw <;> simp [Functor.map, Except.map]

/-- Chains compose. Without steps a unit makes of its source what it is, text or not. A chain that
is cut behind some of its steps succeeds with what the steps behind the cut make of the text that
those before it make of the source, and fails like those before it, whatever comes behind. It fails
exactly if the source is no text or if one of its steps refuses what those before it have made; the
error names that step, or the first one if the source is no text. -/
theorem convert_composes (ht : c.targetOf u (s.source u).relative = .ok t)
    (hraw : (s.read u).2 = .ok raw) :
    (s.convert c (u.withSteps [])).2 = .ok (t, raw) ∧
      (∀ xs ys, xs ≠ [] →
        (∀ content, (s.convert c (u.withSteps (xs ++ ys))).2 = .ok (t, content) ↔
          ∃ text out, (s.convert c (u.withSteps xs)).2 = .ok (t, String.toUTF8 text) ∧
            Converts t ys text out ∧ content = out.toUTF8) ∧
        ∀ e, (s.convert c (u.withSteps xs)).2 = .error e →
          (s.convert c (u.withSteps (xs ++ ys))).2 = .error e) ∧
      ∀ steps e, (s.convert c (u.withSteps steps)).2 = .error e ↔ FailsWith t raw steps e := by
  -- neither the target of a unit nor its source depends on the steps
  have hok : ∀ steps content, (s.convert c (u.withSteps steps)).2 = .ok (t, content) ↔
      Filewise.convert t steps raw = .ok content := fun steps content =>
    convert_eq_ok_iff (u := u.withSteps steps) ht hraw
  have herror : ∀ steps e, (s.convert c (u.withSteps steps)).2 = .error e ↔
      Filewise.convert t steps raw = .error e := fun steps e =>
    convert_eq_error_iff (u := u.withSteps steps) ht hraw
  refine ⟨(hok [] raw).mpr rfl, fun xs ys hxs => ⟨fun content => ?_, fun e h => ?_⟩,
    fun steps e => ?_⟩
  · simp only [hok]
    exact convert_append_eq_ok_iff hxs
  · rw [herror] at h ⊢
    exact convert_append_eq_error h ys
  · rw [herror]
    exact Filewise.convert_eq_error_iff

/-- A target whose one file is tagged. -/
def tagged : Target := Target.new "esm" ⟨"/src"⟩ ⟨"/out"⟩

/-- The unit for that file. -/
def taggedUnit : PlannedUnit := ⟨0, "esm", 0, [], ⟨"a.js"⟩, none⟩

/-- The work before the unit is taken; the file holds an x. -/
def taggedWork : Shared :=
  ⟨⟨[(["src"], .directory), (["src", "a.js"], .file "x".toUTF8)], []⟩,
    [Source.new ⟨"/src/a.js"⟩ ⟨"a.js"⟩], Outputs.empty, 0, false⟩

/-- A step that tags a text. -/
def tagStep (id : String) : PlannedStep := ⟨Engine.tag id, []⟩

/-- A step that refuses what the step b has tagged. -/
def strictStep : PlannedStep := ⟨Engine.reject "strict" "b(" "tagged twice", []⟩

/-- A step whose transformer cannot be made. -/
def lateStep : PlannedStep := ⟨Engine.failing "late" "never made", []⟩

theorem taggedTwice_composes :
    BuildConfig.targetOf ⟨none, [tagged]⟩ taggedUnit (taggedWork.source taggedUnit).relative =
      .ok tagged ∧
    (taggedWork.read taggedUnit).2 = .ok "x".toUTF8 ∧
    (taggedWork.convert ⟨none, [tagged]⟩
      (taggedUnit.withSteps ([tagStep "a"] ++ [strictStep]))).2 = .ok (tagged, "a(x)".toUTF8) ∧
    (taggedWork.convert ⟨none, [tagged]⟩
      (taggedUnit.withSteps ([tagStep "a", tagStep "b"] ++ [strictStep, lateStep]))).2 =
        .error (.contentTransform "strict" "tagged twice") := by
  have ht : BuildConfig.targetOf ⟨none, [tagged]⟩ taggedUnit
      (taggedWork.source taggedUnit).relative = .ok tagged := by rfl
  have hraw : (taggedWork.read taggedUnit).2 = .ok "x".toUTF8 := by decide +kernel
  obtain ⟨-, hcut, hfails⟩ := convert_composes ht hraw
  have htag : ∀ id text, (tagStep id).Converts tagged text s!"{id}({text})" :=
    fun id text => ⟨_, rfl, rfl⟩
  have hstops : StopsAt tagged [tagStep "a", tagStep "b"] "x" strictStep "tagged twice" :=
    .intro (.cons (htag "a" "x") (.cons (htag "b" _) .nil))
      (.refused rfl (if_pos (by decide +kernel)))
  refine ⟨ht, hraw, ?_, (hfails _ _).mpr (.step rfl hstops)⟩
  -- what is tagged once passes the strict step
  refine ((hcut [tagStep "a"] [strictStep] (by simp)).1 _).mpr ⟨"a(x)", "a(x)", by rfl, ?_, rfl⟩
  exact .cons ⟨_, rfl, by decide +kernel⟩ .nil

end Shared

end Filewise

import Filewise.Command.Arguments
import Filewise.Command.Help
import Filewise.Config.Load
import Filewise.Engine.Standard
import Filewise.Pool.Run
import Filewise.Schema.Standard

/-!
# Running commands

A command is carried out in a session: with a file tree, an environment, and a number of
processors. What it tells depends on when the work began and when it ended, which is
known only after the work is done.

## Main definitions

* `Session`: where a command is carried out.
* `Command.carryOut`: the work of a command.
* `Work.tell`: what the work tells.
* `Session.run`: arguments to what they lead to.
-/

namespace Filewise

/-- Where a command is carried out. -/
structure Session where
  tree : Tree
  environment : Environment
  /-- The number of workers of a build that is not configured otherwise. -/
  processors : Nat

/-- What a command leads to. -/
structure Response where
  exitCode : Nat
  output : String
  /-- What is told about errors. -/
  errors : String
  tree : Tree

/-- The work of a command, before it is told. -/
inductive Work where
  | refused (e : LoadError)
  | built (result : BuildResult) (report : Option Path)
  | planned (p : Plan) (isForPrograms : Bool)
  | listed (r : Registry)
  | explained (topic : HelpTopic)

/-! ### The work -/

namespace Command

/-- The project of a session, with the given configuration file. -/
def project (s : Session) (config : Option Path) : Except LoadError Project := do
  let c ← BuildConfig.loadResolved s.tree s.environment config
  return Project.new c Registry.standard s.processors

/-- Carries a build out. Its report has no times yet. -/
def carryOutBuild (s : Session) (a : BuildArguments) : Except LoadError Work := do
  let project ← project s a.config
  let project := match a.workers with
    | some n => project.withWorkers n
    | none => project
  -- the times are put in when the work is told
  return .built (project.build s.tree ⟨0⟩ ⟨0⟩) a.report

/-- Makes a plan. -/
def carryOutPlan (s : Session) (a : PlanArguments) : Except LoadError Work := do
  return .planned ((← project s a.config).plan s.tree) a.isForPrograms

/-- The work or the refusal of it. -/
def orRefused : Except LoadError Work → Work
  | .ok work => work
  | .error e => .refused e

/-- Carries a command out. -/
def carryOut (s : Session) : Command → Work
  | .build a => orRefused (carryOutBuild s a)
  | .plan a => orRefused (carryOutPlan s a)
  | .transformers => .listed Registry.standard
  | .help topic => .explained topic

end Command

/-! ### What is told -/

/-- A line about an error that ends a command. -/
def errorLine (message : String) : String := s!"Error: {message}\n"

namespace LoadError

/-- What is told if no configuration is loaded. -/
def line (e : LoadError) : String :=
  errorLine ("loading configuration: " ++ (BuildError.config e.message).message)

end LoadError

/-- A unit of a plan as a line of text. -/
def UnitSummary.line (u : UnitSummary) : String :=
  let chain := if u.chain.isEmpty then "(passthrough)" else String.intercalate " → " u.chain
  s!"[{u.target}] {u.source.text} → {u.output.text}  {chain}\n"

namespace Plan

/-- A plan for people or for programs. -/
def shown (p : Plan) (isForPrograms : Bool) : String :=
  if isForPrograms then (Value.array (p.summaries.map UnitSummary.toValue)).pretty ++ "\n"
  else String.join (p.summaries.map UnitSummary.line)

/-- The errors of a plan, a line for each. -/
def errorLines (p : Plan) : String :=
  String.join (p.errors.map fun e => s!"❌ [{e.target}] {e.message}\n")

end Plan

namespace Transformer

/-- An option of a transformer as a line of text. -/
def optionLine (name : String) (rule : OptionRule) : String :=
  let required := if rule.isRequired then " (required)" else ""
  let about := rule.description.getD ""
  s!"  --{name}{required}  {about}\n"

/-- The options of a transformer, a line for each. -/
def optionLines (t : Transformer) : String :=
  match t.schema with
  | none => "  (no options)\n"
  | some schema => String.join (schema.map fun (name, rule) => optionLine name rule)

/-- A transformer in a list of them. -/
def listing (t : Transformer) : String :=
  t.id ++ "\n" ++ (if t.description.isEmpty then "" else s!"  {t.description}\n") ++
    String.join (t.extensionRemap.map fun (old, new) => s!"  .{old} → .{new}\n") ++
    t.optionLines ++ "\n"

end Transformer

/-- The transformers of a registry. -/
def Registry.listing (r : Registry) : String :=
  s!"📦 {r.size} transformer(s)\n\n" ++ String.join (r.descriptors.map Transformer.listing)

namespace Work

/-- What a build tells: its report, and whether it could be written for programs. -/
def tellBuild (r : Report) (tree : Tree) (report : Option Path) : Response :=
  match report with
  | none => ⟨r.exitCode, r.render, "", tree⟩
  | some p =>
    match tree.overwrite p r.toJson.toUTF8 with
    | .ok tree => ⟨r.exitCode, r.render ++ s!"📄 Report written to {p.text}\n", "", tree⟩
    | .error e => ⟨1, r.render, errorLine s!"writing report to {p.text}: {e.message}", tree⟩

/-- What work tells, given when it began and when it ended. -/
def tell (s : Session) (started finished : Instant) : Work → Response
  | .refused e => ⟨1, "", e.line, s.tree⟩
  | .built result report =>
    tellBuild { result.report with started, finished } result.shared.tree report
  | .planned p isForPrograms =>
    ⟨if p.errors.isEmpty then 0 else 1, p.shown isForPrograms, p.errorLines, s.tree⟩
  | .listed r => ⟨0, r.listing, "", s.tree⟩
  | .explained topic => ⟨0, topic.text, "", s.tree⟩

end Work

/-- The exit code for arguments that cannot be understood. -/
def usageCode : Nat := 2

/-- What arguments lead to in a session, given when the work began and ended. -/
def Session.run (s : Session) (arguments : List String) (started finished : Instant) : Response :=
  match Command.ofArguments arguments with
  | .error e => ⟨usageCode, "", s!"error: {e.message}\n", s.tree⟩
  | .ok command => (command.carryOut s).tell s started finished

end Filewise

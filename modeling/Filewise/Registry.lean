import Filewise.Registry.Similarity
import Filewise.Transformer

/-!
# Registries

A registry knows transformers by their ids. An id is taken once and for all: a
second transformer of the same id is refused. An id that is not known is answered
with the most similar one that is.

## Main definitions

* `Registry`, `Registry.register`, `Registry.registerAll`.
* `Registry.resolve`, `Registry.suggestion?`.
-/

namespace Filewise

/-- The transformers by id, in ascending order of the ids. -/
structure Registry where
  transformers : Dict Transformer

namespace Registry

/-- The registry without transformers. -/
def empty : Registry := ⟨[]⟩

/-- Adds a transformer unless its id is taken. -/
def register (r : Registry) (t : Transformer) : Except RegistryError Registry :=
  if r.transformers.contains t.id then .error (.duplicate t.id)
  else .ok ⟨r.transformers.insert t.id t⟩

/-- Adds transformers in order, up to the first whose id is taken. -/
def registerAll (r : Registry) (ts : List Transformer) : Except RegistryError Registry :=
  ts.foldlM register r

/-- The transformer with an id. -/
def find? (r : Registry) (id : String) : Option Transformer := r.transformers.find? id

/-- Whether an id is taken. -/
def contains (r : Registry) (id : String) : Bool := r.transformers.contains id

/-- The ids in ascending order. -/
def ids (r : Registry) : List String := r.transformers.keys

/-- The transformers in ascending order of their ids. -/
def descriptors (r : Registry) : List Transformer := r.transformers.map Prod.snd

/-- The number of transformers. -/
def size (r : Registry) : Nat := r.transformers.length

/-- How similar a candidate is to an id, by the scores of patterns in names: how well
the id fits into the candidate, or else the candidate into the id. -/
def similarity? (score? : String → String → Option Int) (id candidate : String) : Option Int :=
  (score? candidate id).or (score? id candidate)

/-- Whether a candidate is preferred to another: by its score, and among equal
scores by its id. -/
def isPreferred (a b : Int × String) : Bool := b.1 < a.1 || (a.1 == b.1 && a.2 < b.2)

/-- The preferred one of a candidate and the best so far. -/
def better (best : Option (Int × String)) (candidate : Int × String) : Option (Int × String) :=
  match best with
  | none => some candidate
  | some b => if isPreferred candidate b then some candidate else some b

/-- The candidates that have a score, with their scores. -/
def scoredCandidates (score? : String → String → Option Int) (id : String)
    (candidates : List String) : List (Int × String) :=
  candidates.filterMap fun c => (similarity? score? id c).map fun score => (score, c)

/-- The most similar of some ids. -/
def mostSimilar? (score? : String → String → Option Int) (id : String)
    (candidates : List String) : Option String :=
  ((scoredCandidates score? id candidates).foldl better none).map Prod.snd

/-- The id that may be meant by one that is not known. -/
def suggestion? (r : Registry) (id : String) : Option String :=
  mostSimilar? Similarity.score? id r.ids

/-- The transformer with an id, or an error that suggests another id. -/
def resolve (r : Registry) (id : String) : Except RegistryError Transformer :=
  match r.find? id with
  | some t => .ok t
  | none => .error (.unknown id (r.suggestion? id))

end Registry

end Filewise

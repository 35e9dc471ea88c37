import Filewise.Proofs.Output.Writing
import Filewise.Proofs.Tree.Contents

/-!
# Drafts

An output file is not written where it belongs. A draft is opened next to it, filled, and renamed
when it is complete; a draft that is given up is removed. The system may refuse any of these steps,
and the making of a directory before them. Whatever it refuses, all that is left is directories
that were made. If it refuses nothing, the output file is put in place at once, as it were.

## Main definitions

* `Tree.GainsDirectories`: a tree in which directories were made, and nothing else has changed.
* `Host`: a system that opens drafts and may refuse anything.
* `Host.write`: how an output file is written by way of a draft.
* `NotWritten`: what is left when an output file is not written.

## Main results

* `Host.notWritten_of_write`: what is left when an output file is not written by way of a draft.
* `Host.IsWilling.write_eq`: a system that refuses nothing writes as if there were no drafts.
-/

namespace Filewise

/-! ### Trees in which directories were made -/

namespace Tree

/-- Nothing has changed but that directories were made where nothing stood. -/
def GainsDirectories (t t' : Tree) : Prop :=
  ∀ l, t'.find? l = t.find? l ∨ t.find? l = none ∧ t'.find? l = some .directory

variable {t t' t'' : Tree} {l : Location} {p : Path} {e : Entry}

namespace GainsDirectories

theorem refl (t : Tree) : GainsDirectories t t := fun _ => Or.inl rfl

theorem trans (h : GainsDirectories t t') (h' : GainsDirectories t' t'') :
    GainsDirectories t t'' := by
  intro l
  rcases h' l with hsame' | ⟨hnone', hmade'⟩
  · rw [hsame']
    exact h l
  · rcases h l with hsame | ⟨-, hmade⟩
    · exact Or.inr ⟨hsame ▸ hnone', hmade'⟩
    · exact nomatch hnone'.symm.trans hmade

/-- No file is there that was not there, none is gone, and none holds anything else. -/
theorem content?_eq (h : GainsDirectories t t') (l : Location) : t'.content? l = t.content? l := by
  rcases h l with hsame | ⟨hnone, hmade⟩
  · rw [content?, content?, hsame]
  · rw [content?, content?, hnone, hmade]

end GainsDirectories

theorem ne_nil_of_find?_eq_none (h : t.find? l = none) : l ≠ [] := by
  rintro rfl
  simp at h

theorem gainsDirectories_makeDirectory (h : t.makeDirectory p = .ok t') :
    GainsDirectories t t' := by
  obtain ⟨directory, segment, slash, -, hnone, rfl⟩ := exists_of_makeDirectory h
  intro l
  rw [find?_put t (ne_nil_of_find?_eq_none hnone)]
  split_ifs with heq
  · exact Or.inr ⟨heq ▸ hnone, rfl⟩
  · exact Or.inl rfl

theorem lookup_eq_none_iff {entries : List (Location × Entry)} :
    lookup l entries = none ↔ ∀ entry ∈ entries, entry.1 ≠ l := by
  induction entries with
  | nil => simp [lookup]
  | cons entry rest ih =>
    obtain ⟨l', e⟩ := entry
    rw [lookup, List.forall_mem_cons, ← ih]
    split_ifs with heq <;> simp [heq]

/-- Clearing a location where nothing stands changes nothing. -/
theorem erase_eq_self (h : t.find? l = none) : t.erase l = t := by
  have hlookup : lookup l t.entries = none := by
    rwa [find?, if_neg (ne_nil_of_find?_eq_none h)] at h
  have hkeeps : ∀ entry ∈ t.entries, decide (entry.1 ≠ l) = true := fun entry hentry =>
    decide_eq_true (lookup_eq_none_iff.mp hlookup entry hentry)
  rw [erase, without, List.filter_eq_self.mpr hkeeps]

/-- What is put at a location is gone when the location is cleared. -/
theorem erase_put (t : Tree) (l : Location) (e : Entry) : (t.put l e).erase l = t.erase l := by
  simp [erase, put, without]

/-- The characters of the names of a location. -/
def letters (l : Location) : List Char := l.flatMap String.toList

/-- A name that is longer than all names in a tree together. -/
def freeName (t : Tree) : String :=
  String.ofList (List.replicate ((t.entries.flatMap fun entry => letters entry.1).length + 1) '~')

/-- Nothing has a name that is longer than all names in the tree. -/
theorem find?_freeName (t : Tree) (directory : Location) :
    t.find? (directory ++ [t.freeName]) = none := by
  rw [find?, if_neg (by simp), lookup_eq_none_iff]
  intro entry hentry heq
  obtain ⟨before, after, hentries⟩ := List.append_of_mem hentry
  have htotal : (t.entries.flatMap fun entry => letters entry.1).length =
      (before.flatMap fun entry => letters entry.1).length + ((letters entry.1).length +
        (after.flatMap fun entry => letters entry.1).length) := by
    simp only [hentries, List.flatMap_append, List.flatMap_cons, List.length_append]
  have hname : letters entry.1 = letters directory ++ t.freeName.toList := by
    simp [heq, letters]
  have hlength : t.freeName.toList.length =
      (t.entries.flatMap fun entry => letters entry.1).length + 1 := by
    rw [freeName, String.toList_ofList, List.length_replicate]
  rw [hname, List.length_append] at htotal
  omega

end Tree

/-! ### Systems that refuse -/

/-- A system that files are written on. It may refuse what it is asked for, also where the tree
shows no reason: it may have no room left, or no permission may be given. -/
structure Host where
  /-- Why no directory is made. -/
  refusesDirectory? : Tree → Path → Option IOCause
  /-- Where a draft is opened for a file in a directory. -/
  openDraft : Tree → Path → Except IOCause Location
  /-- A draft is opened where nothing stands. -/
  find?_openDraft : ∀ {t p l}, openDraft t p = .ok l → t.find? l = none
  /-- What has come into a draft by the time when it is not written on, and why it is not. -/
  refusesContent? : Tree → Location → ByteArray → Option (ByteArray × IOCause)
  /-- Why a draft is not renamed. -/
  refusesName? : Tree → Location → Path → Option IOCause

namespace Host

/-- Makes a directory in an existing one. -/
def makeDirectory (host : Host) (t : Tree) (p : Path) : Except IOCause Tree :=
  match host.refusesDirectory? t p with
  | some cause => .error cause
  | none => (t.makeDirectory p).mapError .system

/-- Makes a directory unless there is one, given what to do if the one above it is missing. -/
def makeDirectoryOr (host : Host) (t : Tree) (p : Path) (ifMissing : Tree × Except IOCause Unit) :
    Tree × Except IOCause Unit :=
  match host.makeDirectory t p with
  | .ok t => (t, .ok ())
  | .error (.system .notFound) => ifMissing
  | .error cause => if t.isDirectory p then (t, .ok ()) else (t, .error cause)

/-- Makes a directory and those above it that are missing, up to the given number of levels. What
was made before a failure stays. -/
def makeDirectoriesWithin (host : Host) : Nat → Tree → Path → Tree × Except IOCause Unit
  | 0, t, _ => (t, .error (.system .notFound))
  | levels + 1, t, p =>
    if p.text.isEmpty then (t, .ok ())
    else host.makeDirectoryOr t p <|
      match p.parent? with
      | none => (t, .error (.system .notFound))
      | some above =>
        match makeDirectoriesWithin host levels t above with
        | (t, .error cause) => (t, .error cause)
        | (t, .ok ()) => host.makeDirectoryOr t p (t, .error (.system .notFound))

/-- Makes a directory and those above it that are missing. -/
def makeDirectories (host : Host) (t : Tree) (p : Path) : Tree × Except IOCause Unit :=
  host.makeDirectoriesWithin (p.segments.length + 1) t p

/-- Writes into a draft. What has come into it before a failure is there. -/
def fill (host : Host) (t : Tree) (l : Location) (content : ByteArray) :
    Tree × Except IOCause Unit :=
  match host.refusesContent? t l content with
  | some (part, cause) => (t.put l (.file part), .error cause)
  | none => (t.put l (.file content), .ok ())

/-- Gives a draft the name of an output file. -/
def rename (host : Host) (t : Tree) (l : Location) (p : Path) : Except IOCause Tree :=
  match host.refusesName? t l p with
  | some cause => .error cause
  | none =>
    match t.content? l with
    | none => .error (.system .notFound)
    | some content => ((t.erase l).place p content).mapError .system

/-- Puts a file in place by way of a draft, given the directory for the draft. A draft that is not
renamed is removed. -/
def place (host : Host) (t : Tree) (directory p : Path) (content : ByteArray) :
    Tree × Except IOCause Unit :=
  match host.openDraft t directory with
  | .error cause => (t, .error cause)
  | .ok l =>
    match host.fill (t.put l (.file ByteArray.empty)) l content with
    -- what has come into the draft goes with it
    | (t, .error cause) => (t.erase l, .error cause)
    | (t, .ok ()) =>
      match host.rename t l p with
      | .error cause => (t.erase l, .error cause)
      | .ok t => (t, .ok ())

/-- Claims a path of a target for a source and writes a file there by way of a draft. -/
def write (host : Host) (o : Outputs) (t : Tree) (target : String) (root path source : Path)
    (content : ByteArray) : Outputs × Tree × Except WriteError Path :=
  let destination := Outputs.destination root path
  let directory := Outputs.directory root path
  match o.claim target path source with
  | .error e => (o, t, .error e)
  | .ok o =>
    match host.makeDirectories t directory with
    | (t, .error cause) => (o, t, .error (.io destination cause))
    | (t, .ok ()) =>
      match host.place t directory destination content with
      | (t, .error cause) => (o, t, .error (.io destination cause))
      | (t, .ok ()) => (o.count, t, .ok destination)

variable {host : Host} {t t' : Tree} {l : Location} {p directory root path source : Path}
  {cause : IOCause} {content : ByteArray}

/-! ### What a refusal leaves -/

theorem gainsDirectories_makeDirectory (h : host.makeDirectory t p = .ok t') :
    t.GainsDirectories t' := by
  unfold makeDirectory at h
  split at h
  · simp at h
  · cases hmade : t.makeDirectory p with
    | error e => simp [hmade, Except.mapError] at h
    | ok made =>
      rw [hmade] at h
      obtain rfl : made = t' := Except.ok.inj h
      exact Tree.gainsDirectories_makeDirectory hmade

theorem gainsDirectories_makeDirectoryOr {ifMissing : Tree × Except IOCause Unit}
    (hmissing : t.GainsDirectories ifMissing.1) :
    t.GainsDirectories (host.makeDirectoryOr t p ifMissing).1 := by
  unfold makeDirectoryOr
  split
  · rename_i hmade
    exact gainsDirectories_makeDirectory hmade
  · exact hmissing
  · split_ifs <;> exact .refl t

theorem gainsDirectories_makeDirectoriesWithin (host : Host) (levels : Nat) (t : Tree) (p : Path) :
    t.GainsDirectories (host.makeDirectoriesWithin levels t p).1 := by
  -- what was made above a missing directory stays, whether or not the directory is made then
  induction levels generalizing p with
  | zero => exact .refl t
  | succ levels ih =>
    unfold makeDirectoriesWithin
    split_ifs
    · exact .refl t
    · apply gainsDirectories_makeDirectoryOr
      split
      · exact .refl t
      · rename_i above _
        have habove := ih above
        split <;> rename_i hmade <;> rw [hmade] at habove
        · exact habove
        · exact habove.trans (gainsDirectories_makeDirectoryOr (.refl _))

/-- However much has come into a draft, nothing is left when it is removed. -/
theorem erase_fill (host : Host) (hfree : t.find? l = none) (e : Entry) (content : ByteArray) :
    (host.fill (t.put l e) l content).1.erase l = t := by
  unfold fill
  split <;> rw [Tree.erase_put, Tree.erase_put, Tree.erase_eq_self hfree]

/-- A file that is not put in place leaves the tree as it was, wherever writing it stopped. -/
theorem eq_of_place_error (h : host.place t directory p content = (t', .error cause)) :
    t' = t := by
  unfold place at h
  split at h
  · exact (Prod.mk.inj h).1.symm
  · rename_i l hdraft
    -- the draft is removed with the same content that it had when it was given up
    have hremoved := host.erase_fill (host.find?_openDraft hdraft) (.file ByteArray.empty) content
    split at h <;> rename_i hfill <;> rw [hfill] at hremoved
    · rw [← (Prod.mk.inj h).1, hremoved]
    · split at h
      · rw [← (Prod.mk.inj h).1, hremoved]
      · simp at h

end Host

/-- What is left when an output file is not written: nothing if its path belongs to another source,
otherwise the claim and perhaps directories. -/
inductive NotWritten (o : Outputs) (t : Tree) (target : String) (root path source : Path) :
    Outputs → Tree → WriteError → Prop
  | refused {e} : o.claim target path source = .error e →
      NotWritten o t target root path source o t e
  | stopped {o' t'} (cause) : o.claim target path source = .ok o' → t.GainsDirectories t' →
      NotWritten o t target root path source o' t' (.io (Outputs.destination root path) cause)

namespace Host

variable {host : Host} {o o' : Outputs} {t t' : Tree} {target : String}
  {p root path source : Path} {content : ByteArray}

/-- What is left when an output file is not written, wherever writing it stopped. -/
theorem notWritten_of_write {e : WriteError}
    (h : host.write o t target root path source content = (o', t', .error e)) :
    NotWritten o t target root path source o' t' e := by
  unfold write at h
  dsimp only at h
  split at h
  · rename_i hclaim
    obtain ⟨rfl, rfl, he⟩ : o = o' ∧ t = t' ∧ _ := by simpa using h
    exact he ▸ .refused hclaim
  · rename_i claimed hclaim
    have hgains := gainsDirectories_makeDirectoriesWithin host
      ((Outputs.directory root path).segments.length + 1) t (Outputs.directory root path)
    split at h <;> rename_i hmade <;> rw [makeDirectories] at hmade <;> rw [hmade] at hgains
    · obtain ⟨rfl, rfl, he⟩ : claimed = o' ∧ _ = t' ∧ _ := by simpa using h
      exact he ▸ .stopped _ hclaim hgains
    · split at h
      · rename_i hplace
        obtain ⟨rfl, rfl, he⟩ : claimed = o' ∧ _ = t' ∧ _ := by simpa using h
        rw [eq_of_place_error hplace]
        exact he ▸ .stopped _ hclaim hgains
      · simp at h

/-! ### Systems that refuse nothing -/

/-- A system opens a draft for whoever asks and refuses nothing that the tree allows. -/
structure IsWilling (host : Host) : Prop where
  refusesDirectory? : ∀ t p, host.refusesDirectory? t p = none
  openDraft : ∀ t p, ∃ l, host.openDraft t p = .ok l
  refusesContent? : ∀ t l content, host.refusesContent? t l content = none
  refusesName? : ∀ t l p, host.refusesName? t l p = none

namespace IsWilling

theorem makeDirectoryOr_eq (h : host.IsWilling) (t : Tree) (p : Path)
    (ifMissing : Tree × Except SystemError Unit) :
    host.makeDirectoryOr t p (ifMissing.1, ifMissing.2.mapError .system) =
      ((t.makeDirectoryOr p ifMissing).1,
        (t.makeDirectoryOr p ifMissing).2.mapError .system) := by
  have hmake : host.makeDirectory t p = (t.makeDirectory p).mapError .system := by
    rw [makeDirectory, h.refusesDirectory?]
  rw [Host.makeDirectoryOr, Tree.makeDirectoryOr, hmake]
  rcases t.makeDirectory p with e | made
  · cases e with
    | notFound => rfl
    | _ =>
      simp only [Except.mapError]
      split_ifs <;> rfl
  · rfl

theorem makeDirectoriesWithin_eq (h : host.IsWilling) (levels : Nat) (t : Tree) (p : Path) :
    host.makeDirectoriesWithin levels t p =
      ((Tree.makeDirectoriesWithin levels t p).1,
        (Tree.makeDirectoriesWithin levels t p).2.mapError .system) := by
  induction levels generalizing p with
  | zero => rfl
  | succ levels ih =>
    rw [Host.makeDirectoriesWithin, Tree.makeDirectoriesWithin]
    split_ifs
    · rfl
    · rw [← h.makeDirectoryOr_eq]
      cases p.parent? with
      | none => rfl
      | some above =>
        dsimp only
        rw [ih]
        rcases Tree.makeDirectoriesWithin levels t above with ⟨made, e | _⟩
        · rfl
        · exact congrArg (host.makeDirectoryOr t p)
            (h.makeDirectoryOr_eq made p (made, .error .notFound))

/-- A file that was written as a draft is put in place as if it had not been. -/
theorem place_eq (h : host.IsWilling) (t : Tree) (directory p : Path) (content : ByteArray) :
    host.place t directory p content =
      match t.place p content with
      | .ok t' => (t', .ok ())
      | .error e => (t, .error (.system e)) := by
  obtain ⟨l, hdraft⟩ := h.openDraft t directory
  have hfree := host.find?_openDraft hdraft
  have hl := Tree.ne_nil_of_find?_eq_none hfree
  have hfill : host.fill (t.put l (.file ByteArray.empty)) l content =
      ((t.put l (.file ByteArray.empty)).put l (.file content), .ok ()) := by
    rw [fill, h.refusesContent?]
  have hcontent : ((t.put l (.file ByteArray.empty)).put l (.file content)).content? l =
      some content := by
    rw [Tree.content?, Tree.find?_put _ hl, if_pos rfl]
  have hremoved : ((t.put l (.file ByteArray.empty)).put l (.file content)).erase l = t := by
    rw [Tree.erase_put, Tree.erase_put, Tree.erase_eq_self hfree]
  simp only [place, hdraft, hfill, rename, h.refusesName?, hcontent, hremoved]
  cases t.place p content <;> rfl

/-- A system that refuses nothing writes files as if there were no drafts. -/
theorem write_eq (h : host.IsWilling) (o : Outputs) (t : Tree) (target : String)
    (root path source : Path) (content : ByteArray) :
    host.write o t target root path source content =
      o.write t target root path source content := by
  have hmake : host.makeDirectories t (Outputs.directory root path) =
      ((t.makeDirectories (Outputs.directory root path)).1,
        (t.makeDirectories (Outputs.directory root path)).2.mapError .system) :=
    h.makeDirectoriesWithin_eq _ t _
  have hmake' := Outputs.makeDirectory_eq t root path
  generalize t.makeDirectories (Outputs.directory root path) = answer at hmake hmake'
  obtain ⟨made, result⟩ := answer
  rw [Host.write, Outputs.write, hmake']
  dsimp only
  rw [hmake]
  -- both make the same directories, so they differ at most in putting the file in place
  cases o.claim target path source with
  | error e => rfl
  | ok claimed =>
    cases result with
    | error e => rfl
    | ok _ =>
      dsimp only [Except.mapError]
      rw [h.place_eq]
      unfold Outputs.place
      cases made.place (Outputs.destination root path) content <;> rfl

end IsWilling

/-- A system that refuses nothing. Its drafts have names that nothing in the tree has. -/
def willing : Host where
  refusesDirectory? _ _ := none
  openDraft t p := .ok ((t.resolve p).toOption.getD t.workingDirectory ++ [t.freeName])
  find?_openDraft h := by
    obtain rfl := Except.ok.inj h
    exact Tree.find?_freeName _ _
  refusesContent? _ _ _ := none
  refusesName? _ _ _ := none

theorem isWilling_willing : willing.IsWilling :=
  ⟨fun _ _ => rfl, fun _ _ => ⟨_, rfl⟩, fun _ _ _ => rfl, fun _ _ _ => rfl⟩

end Host

end Filewise

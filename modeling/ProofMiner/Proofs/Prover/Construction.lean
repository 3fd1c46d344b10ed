/-
# What the making of a context leaves behind

A context is made in four stages: the directory, the loader, the program that the loader gives, and the name
of that program. A failure at one of the first three is one of the construction (`isConstruction`), and the
directory is removed again. Two failures are not: an exception of an unknown sort from the loader, and any
exception from a program that is asked for its name. These escape (`Loaded.Escapes`), and then the directory
stays as the loader left it.

Nobody asks whether a removal succeeds. A directory that the system refuses to remove (`Scratch.Holds`) is in
the way of the one to be made, or is left behind by a construction that fails later on (`Stuck`).

Whether the making ends as it should (`Clean`) therefore depends on the system and on what the loader does in
the directory that was made for it, and on nothing else that stood there before.
-/

import ProofMiner.Proofs.Supervisor.Directories

namespace ProofMiner

namespace Scratch

variable {s s' : Scratch} {name : String}

/-- A directory is there if it is among those that were made. -/
theorem contains_iff : s.contains name = true ↔ name ∈ s.made := by
  simp [contains, find?, made]

/-- The directory is there, and the system refuses to remove it. -/
structure Holds (s : Scratch) (name : String) : Prop where
  there : s.contains name = true
  refused : ¬ s.Removable name

/-- A removal leaves a directory if and only if that is held. -/
theorem contains_remove_iff : (s.remove name).contains name = true ↔ s.Holds name := by
  rw [contains_iff, mem_made_remove, ← contains_iff]
  exact ⟨fun h => ⟨h.1, h.2 rfl⟩, fun h => ⟨h.there, fun _ => h.refused⟩⟩

theorem contains_remove_of_not_holds (h : ¬ s.Holds name) : (s.remove name).contains name = false :=
  Bool.eq_false_iff.2 (mt contains_remove_iff.1 h)

/-- Nothing is made where a directory is held. -/
theorem create?_of_holds (h : s.Holds name) : s.create? name = none := by
  rw [create?]
  exact if_pos (by rw [contains_remove_iff.2 h, Bool.or_true])

/-- A directory that was just made is there, with nothing in it. -/
theorem find?_of_create (h : s.create? name = some s') : s'.find? name = some { name } := by
  obtain ⟨hfree, rfl⟩ := create_eq_some h
  have hold : (s.remove name).find? name = none :=
    Option.not_isSome_iff_eq_none.1 (by simpa [contains] using hfree)
  rw [find?, List.find?_append, ← find?, hold]
  simp

/-- What is left after a removal is not removed by a second one. -/
theorem remove_remove (s : Scratch) (name : String) : (s.remove name).remove name = s.remove name := by
  have hagain : ∀ d, (s.remnant? name d).bind (s.remnant? name) = s.remnant? name d := fun d => by
    by_cases hd : d.name = name
    · cases hheld : s.held.lookup name <;> simp [remnant?, hd, hheld]
    · simp [remnant?, hd]
  change { s.remove name with
    directories := (s.directories.filterMap (s.remnant? name)).filterMap (s.remnant? name) } = _
  simp only [List.filterMap_filterMap, hagain]
  rfl

/-- What stood under a name before does not matter to the directory that is made there. -/
theorem create?_remove (s : Scratch) (name : String) :
    (s.remove name).create? name = s.create? name := by
  rw [create?, create?, remove_remove]

end Scratch

variable {σ : Type}

/-- The loading ends in an exception that is not turned into a failure of the construction. -/
inductive Loaded.Escapes : Loaded σ → Raised → Prop
  | unknown : Escapes (.raised .unknown) .unknown
  /-- The program is there, but asking for its name raises. -/
  | name (program : Program σ) (e : Raised) (raises : program.name = .error e) :
    Escapes (.program program) e

/-- The loading ends in a failure of the construction. -/
inductive Loaded.Fails : Loaded σ → ContextFault → Prop
  | nothing : Fails .nothing .noProgram
  | refused (message : String) : Fails (.refused message) (.refused message)
  | raised (message : String) : Fails (.raised (.error message)) (.loadFailed message)

/-- Such a failure is one of the construction. -/
theorem Loaded.Fails.isConstruction {loaded : Loaded σ} {e : ContextFault} (h : loaded.Fails e) :
    e.isConstruction = true := by
  cases h <;> rfl

/-- The plain loaders are those from which nothing escapes. -/
theorem Loader.plain_iff {load : Loader σ} :
    load.Plain ↔ ∀ env s e, ¬ (load env s).1.Escapes e := by
  constructor
  · intro hplain env s e hescapes
    have h := hplain env s
    cases hloaded : (load env s).1 with
    | program program =>
      rw [hloaded] at h hescapes
      obtain ⟨programName, hname⟩ := h
      cases hescapes with
      | name _ _ raises => cases hname.symm.trans raises
    | nothing | refused message =>
      rw [hloaded] at hescapes
      cases hescapes
    | raised exception =>
      rw [hloaded] at h hescapes
      cases hescapes
      exact h
  · intro hnone env s
    have h := hnone env s
    cases hloaded : (load env s).1 with
    | program program =>
      rw [hloaded] at h
      cases hname : program.name with
      | ok programName => exact ⟨programName, hname⟩
      | error e => exact absurd (.name program e hname) (h e)
    | nothing | refused message => trivial
    | raised exception =>
      rw [hloaded] at h
      cases exception with
      | error message => trivial
      | unknown => exact h .unknown .unknown

namespace Context

/-! ### The loaded program -/

/-- What escapes from the loader escapes from the construction. -/
theorem ofLoaded_of_escapes {loaded : Loaded σ} {e : Raised} (h : loaded.Escapes e)
    (env : WorkerEnv) : ofLoaded env loaded = .error (.escaped e) := by
  cases h with
  | unknown => rfl
  | name program e raises => rw [ofLoaded, raises]

/-- What fails in the loader makes the construction fail. -/
theorem ofLoaded_of_fails {loaded : Loaded σ} {e : ContextFault} (h : loaded.Fails e)
    (env : WorkerEnv) : ofLoaded env loaded = .error e := by
  cases h <;> rfl

/-- What does not escape is a context for the worker or a failure of the construction. -/
theorem ofLoaded_of_not_escapes {loaded : Loaded σ} (h : ∀ e, ¬ loaded.Escapes e)
    (env : WorkerEnv) : (∃ c, ofLoaded env loaded = .ok c ∧ c.env = env) ∨ ∃ e, loaded.Fails e := by
  cases loaded with
  | program program =>
    cases hname : program.name with
    | ok programName => exact .inl ⟨⟨env, program, programName, 0⟩, by rw [ofLoaded, hname], rfl⟩
    | error e => exact absurd (.name program e hname) (h e)
  | nothing => exact .inr ⟨_, .nothing⟩
  | refused message => exact .inr ⟨_, .refused message⟩
  | raised exception =>
    cases exception with
    | error message => exact .inr ⟨_, .raised message⟩
    | unknown => exact absurd .unknown (h .unknown)

/-! ### The stages of the making -/

/-- What the program of a worker is loaded for. -/
def workerEnv (worker : UInt32) (generation : UInt64) (parallelism : Int) : WorkerEnv :=
  { worker, generation, parallelism := (max 1 parallelism).toNat }

/-- The worker is told its directory. -/
theorem directory_workerEnv (worker : UInt32) (generation : UInt64) (parallelism : Int) :
    (workerEnv worker generation parallelism).directory =
      Scratch.directoryName worker generation := rfl

/-- How the making of a context for a worker should end. -/
inductive Clean (loader : Option (Loader σ)) (env : WorkerEnv) (s : Scratch) :
    Except ContextFault (Context σ) × Scratch → Prop
  /-- There is a context. Its directory was made for the loader with nothing in it, and what it holds now
  the loader left there. -/
  | made (load : Loader σ) (fresh : Scratch) (c : Context σ) (configured : loader = some load)
    (created : s.create? env.directory = some fresh)
    (empty : fresh.find? env.directory = some { name := env.directory }) (owner : c.env = env) :
    Clean loader env s (.ok c, (load env fresh).2)
  /-- The construction failed, and there is no directory of the worker. -/
  | failed (e : ContextFault) (left : Scratch) (construction : e.isConstruction = true)
    (gone : left.contains env.directory = false) : Clean loader env s (.error e, left)

/-- The loader is called in a directory that was just made, and its exception escapes. -/
structure Escaping (loader : Option (Loader σ)) (env : WorkerEnv) (s : Scratch) (load : Loader σ)
    (fresh : Scratch) (e : Raised) : Prop where
  configured : loader = some load
  created : s.create? env.directory = some fresh
  escapes : (load env fresh).1.Escapes e

/-- The construction fails, and the system refuses to remove the directory: the one that stood there before,
or the one that was made. It is then left as in the given state, without what the system did remove. -/
inductive Stuck (loader : Option (Loader σ)) (env : WorkerEnv) (s : Scratch) :
    ContextFault → Scratch → Prop
  | before (held : s.Holds env.directory) : Stuck loader env s (.ofScratch s env.directory) s
  | unconfigured (fresh : Scratch) (unconfigured : loader = none)
    (created : s.create? env.directory = some fresh) (held : fresh.Holds env.directory) :
    Stuck loader env s .noLoader fresh
  | loaded (load : Loader σ) (fresh : Scratch) (e : ContextFault) (configured : loader = some load)
    (created : s.create? env.directory = some fresh) (fails : (load env fresh).1.Fails e)
    (held : (load env fresh).2.Holds env.directory) : Stuck loader env s e (load env fresh).2

variable {loader : Option (Loader σ)} {load : Loader σ} {env : WorkerEnv} {s fresh left : Scratch}
variable {worker : UInt32} {generation : UInt64} {parallelism : Int} {e : Raised}

/-- An exception that escaped is not how a making should end. -/
theorem not_clean_of_escaped (left : Scratch) : ¬ Clean loader env s (.error (.escaped e), left) := by
  intro h
  cases h with
  | failed _ _ construction gone => cases construction

/-- Nor is a directory that is still there. -/
theorem not_clean_of_contains {fault : ContextFault} (h : left.contains env.directory = true) :
    ¬ Clean loader env s (.error fault, left) := by
  intro hclean
  cases hclean with
  | failed _ _ _ gone => cases h.symm.trans gone

/-- The first stage: without a directory the loader is not even looked for. -/
theorem make_of_none (henv : env = workerEnv worker generation parallelism)
    (h : s.create? env.directory = none) : make loader worker generation parallelism s =
      (.error (.ofScratch s env.directory), s.remove env.directory) := by
  subst henv
  rw [make, ← workerEnv, h]
  rfl

/-- The second stage: without a loader the new directory is removed. -/
theorem make_of_unconfigured (henv : env = workerEnv worker generation parallelism)
    (h : s.create? env.directory = some fresh) :
    make (none : Option (Loader σ)) worker generation parallelism s =
      (.error .noLoader, fresh.remove env.directory) := by
  subst henv
  rw [make, ← workerEnv, h]
  rfl

/-- The last two stages succeed, and the directory is left to the context. -/
theorem make_of_ok {c : Context σ} (henv : env = workerEnv worker generation parallelism)
    (h : s.create? env.directory = some fresh) (hok : ofLoaded env (load env fresh).1 = .ok c) :
    make (some load) worker generation parallelism s = (.ok c, (load env fresh).2) := by
  subst henv
  rw [make, ← workerEnv, h]
  dsimp only
  rw [hok]

/-- One of the last two stages fails, and the directory is removed if that is a failure of the
construction. -/
theorem make_of_error {fault : ContextFault} (henv : env = workerEnv worker generation parallelism)
    (h : s.create? env.directory = some fresh)
    (herror : ofLoaded env (load env fresh).1 = .error fault) :
    make (some load) worker generation parallelism s =
      (.error fault, if fault.isConstruction then (load env fresh).2.remove env.directory
        else (load env fresh).2) := by
  subst henv
  rw [make, ← workerEnv, h]
  dsimp only
  rw [herror]
  rfl

/-- A failure of the construction removes what the loader left. -/
theorem make_of_fails {fault : ContextFault} (henv : env = workerEnv worker generation parallelism)
    (h : s.create? env.directory = some fresh) (hfails : (load env fresh).1.Fails fault) :
    make (some load) worker generation parallelism s =
      (.error fault, (load env fresh).2.remove env.directory) := by
  rw [make_of_error henv h (ofLoaded_of_fails hfails env), if_pos hfails.isConstruction]

/-- Nothing escapes and nothing is stuck, and the making ends as it should. -/
theorem clean_of_not_escaping (henv : env = workerEnv worker generation parallelism)
    (hnone : ∀ load fresh e, ¬ Escaping loader env s load fresh e)
    (hfree : ∀ e left, ¬ Stuck loader env s e left) :
    Clean loader env s (make loader worker generation parallelism s) := by
  have hgone {e : ContextFault} {left : Scratch}
      (h : left.Holds env.directory → Stuck loader env s e left) :
      (left.remove env.directory).contains env.directory = false :=
    Scratch.contains_remove_of_not_holds fun hheld => hfree e left (h hheld)
  cases hcreate : s.create? env.directory with
  | none =>
    rw [make_of_none henv hcreate]
    exact .failed _ _ (ContextFault.isConstruction_ofScratch s _) (hgone .before)
  | some fresh =>
    cases loader with
    | none =>
      rw [make_of_unconfigured henv hcreate]
      exact .failed _ _ rfl (hgone (.unconfigured fresh rfl hcreate))
    | some load =>
      have hloaded : ∀ e, ¬ (load env fresh).1.Escapes e := fun e he =>
        hnone load fresh e ⟨rfl, hcreate, he⟩
      rcases ofLoaded_of_not_escapes hloaded env with ⟨c, hc, howner⟩ | ⟨fault, hfails⟩
      · rw [make_of_ok henv hcreate hc]
        exact .made load fresh c rfl hcreate (Scratch.find?_of_create hcreate) howner
      · rw [make_of_fails henv hcreate hfails]
        exact .failed _ _ hfails.isConstruction (hgone (.loaded load fresh fault rfl hcreate hfails))

/-- An exception that escapes leaves the directory as the loader left it. -/
theorem make_of_escaping (henv : env = workerEnv worker generation parallelism)
    (h : Escaping loader env s load fresh e) :
    make loader worker generation parallelism s = (.error (.escaped e), (load env fresh).2) := by
  obtain ⟨rfl, hcreate, hescapes⟩ := h
  rw [make_of_error henv hcreate (ofLoaded_of_escapes hescapes env), if_neg]
  exact Bool.false_ne_true

/-- With a plain loader every making ends as it should, if nothing is stuck. -/
theorem clean_of_plain (h : load.Plain) (henv : env = workerEnv worker generation parallelism)
    (hfree : ∀ e left, ¬ Stuck (some load) env s e left) :
    Clean (some load) env s (make (some load) worker generation parallelism s) := by
  refine clean_of_not_escaping henv (fun other fresh e hescaping => ?_) hfree
  obtain rfl := Option.some.inj hescaping.configured
  exact Loader.plain_iff.1 h _ _ e hescaping.escapes

/-- What is stuck is left behind by a construction that failed. -/
theorem make_of_stuck {fault : ContextFault} (henv : env = workerEnv worker generation parallelism)
    (h : Stuck loader env s fault left) : make loader worker generation parallelism s =
      (.error fault, left.remove env.directory) ∧ fault.isConstruction = true ∧
        (left.remove env.directory).contains env.directory = true := by
  cases h with
  | before held =>
    exact ⟨make_of_none henv (Scratch.create?_of_holds held),
      ContextFault.isConstruction_ofScratch s _, Scratch.contains_remove_iff.2 held⟩
  | unconfigured fresh hnone created held =>
    subst hnone
    exact ⟨make_of_unconfigured henv created, rfl, Scratch.contains_remove_iff.2 held⟩
  | loaded load fresh _ configured created fails held =>
    subst configured
    exact ⟨make_of_fails henv created fails, fails.isConstruction, Scratch.contains_remove_iff.2 held⟩

/-- The making does not see what stood in the place of the directory. -/
theorem make_remove (loader : Option (Loader σ)) (worker : UInt32) (generation : UInt64)
    (parallelism : Int) (s : Scratch) :
    make loader worker generation parallelism (s.remove (Scratch.directoryName worker generation)) =
      make loader worker generation parallelism s := by
  rw [make, ← workerEnv, make, ← workerEnv, directory_workerEnv, Scratch.create?_remove,
    WorkerEnv.dispose, WorkerEnv.dispose, directory_workerEnv, Scratch.remove_remove]
  rfl

/-- **The making of a context cleans up unless an exception of its loader escapes** or the system refuses to
remove the directory. What stood in the directory before is never seen. The making ends in a context with a
directory made anew for it, or in a failure of the construction with no directory left, if and only if nothing
escapes from what was loaded and nothing is stuck. If something escapes, the caller gets that exception, and
the directory stays as the loader left it; if something is stuck, the construction fails, and the directory is
still there. -/
theorem construction_cleans_up_iff (loader : Option (Loader σ)) (worker : UInt32)
    (generation : UInt64) (parallelism : Int) (s : Scratch) :
    make loader worker generation parallelism (s.remove (Scratch.directoryName worker generation)) =
        make loader worker generation parallelism s ∧
      (Clean loader (workerEnv worker generation parallelism) s
          (make loader worker generation parallelism s) ↔
        (∀ load fresh e,
          ¬ Escaping loader (workerEnv worker generation parallelism) s load fresh e) ∧
        ∀ e left, ¬ Stuck loader (workerEnv worker generation parallelism) s e left) ∧
      (∀ load fresh e, Escaping loader (workerEnv worker generation parallelism) s load fresh e →
        make loader worker generation parallelism s =
          (.error (.escaped e), (load (workerEnv worker generation parallelism) fresh).2)) ∧
      ∀ e left, Stuck loader (workerEnv worker generation parallelism) s e left →
        make loader worker generation parallelism s =
            (.error e, left.remove (Scratch.directoryName worker generation)) ∧
          e.isConstruction = true ∧
          (left.remove (Scratch.directoryName worker generation)).contains
            (Scratch.directoryName worker generation) = true := by
  refine ⟨make_remove loader worker generation parallelism s, ⟨fun hclean => ⟨?_, ?_⟩, fun h =>
    clean_of_not_escaping rfl h.1 h.2⟩, fun load fresh e h => make_of_escaping rfl h, ?_⟩
  · intro load fresh e hescaping
    rw [make_of_escaping rfl hescaping] at hclean
    exact not_clean_of_escaped _ hclean
  · intro e left hstuck
    obtain ⟨hmake, -, hleft⟩ := make_of_stuck rfl hstuck
    rw [hmake] at hclean
    exact not_clean_of_contains hleft hclean
  · intro e left hstuck
    have hmake := make_of_stuck rfl hstuck
    rwa [directory_workerEnv] at hmake

/-- A directory that is held is in the way of the one to be made, even before the loader is missed. -/
example : make (none : Option (Loader Unit)) 3 2 1
    { directories := [⟨"worker-3-gen-2", [("manifest", ""), ("lock", "")]⟩]
      held := [("worker-3-gen-2", ["lock"])] } =
    (.error (.occupied "worker-3-gen-2"),
      { directories := [⟨"worker-3-gen-2", [("lock", "")]⟩]
        held := [("worker-3-gen-2", ["lock"])] }) := rfl

/-- A loader that raises an exception of an unknown sort. -/
def raising : Loader Unit := fun _ s => (.raised .unknown, s)

/-- A loader of a program that raises when it is asked for its name. -/
def nameless : Loader Unit := fun _ s =>
  (.program { name := .error (.error "no name"), poke := fun _ shared => (.ok [], shared) }, s)

/-- Neither exception is a failure of the construction, and both leave an empty directory of the worker
behind. -/
theorem raising_leaves_directory :
    make (some raising) 3 2 1 {} =
        (.error (.escaped .unknown), { directories := [{ name := "worker-3-gen-2" }] }) ∧
      make (some nameless) 3 2 1 {} =
        (.error (.escaped (.error "no name")), { directories := [{ name := "worker-3-gen-2" }] }) ∧
      ¬ Clean (some raising) (workerEnv 3 2 1) {} (make (some raising) 3 2 1 {}) ∧
      ¬ Clean (some nameless) (workerEnv 3 2 1) {} (make (some nameless) 3 2 1 {}) :=
  ⟨rfl, rfl, not_clean_of_escaped _, not_clean_of_escaped _⟩

end Context
end ProofMiner

/-
# What a failure reaches

A worker that has got its context is handed candidates until its generation ends. What its deeds are from
then on tells how it stands (`Standing`): it goes on serving, or an attempt has ended it, or it has left
because it was asked to, or because the dispatcher stops. So of all that can come of an attempt, and of the
receiver of a proof, only an attempt that ends its worker reaches the worker; it is the last thing that the
worker does (`Course.silent`), and it is reported as a crash.

Everything else stays with the candidate. The proofs of an attempt are passed on in their order before the
next candidate is taken (`Course.settled`), whatever the receiver raised at the earlier ones, and a worker
that is busy comes to the next candidate whatever comes of the present one (`goes_on`).
-/

import ProofMiner.Proofs.Supervisor.Ledger

namespace ProofMiner

/-- The reason of an end. -/
def Deed.reason? : Deed → Option ExitReason
  | ended reason => some reason
  | _ => none

/-- What only a worker that goes on working does. -/
def Deed.isWork : Deed → Bool
  | took _ | finished _ | passed _ _ => true
  | _ => false

/-- Only work can end its worker. -/
theorem Deed.isBreak_of_isWork {x : Deed} (hx : x.isWork = false) : x.isBreak = false := by
  cases x <;> first | rfl | cases hx

/-- A worker that has its context, and looks for a candidate or is busy with one. -/
def Phase.isServing : Phase → Bool
  | idle | attempting _ | emitting _ => true
  | _ => false

/-- A worker that passes on proofs serves, also if there are none. -/
theorem Phase.isServing_emit (proofs : List MinedProof) : (Phase.emit proofs).isServing = true := by
  cases proofs <;> rfl

namespace Dispatcher

variable {c : Config} {d d₀ d' : Dispatcher} {action : Action} {later : List Action}
variable {i w : ℕ} {s s₀ s' : Slot} {g shown : List Deed}

/-! ### How a worker stands -/

/-- The reasons for which a worker has ended, or is about to. -/
def farewell (g : List Deed) (s : Slot) : List ExitReason :=
  g.filterMap Deed.reason? ++ s.phase.reason?.toList

/-- How a worker that has got its context stands after the deeds `g`. -/
inductive Standing (d : Dispatcher) (s : Slot) (g : List Deed) : Prop
  | serving (phase : s.phase.isServing = true) (farewell : farewell g s = [])
    (whole : ∀ x ∈ g, x.isBreak = false)
  /-- An attempt has ended it. -/
  | broken (phase : s.phase.isDone = true) (farewell : farewell g s = [.crashed])
    (broken : ∃ x ∈ g, x.isBreak = true)
  /-- It has left. -/
  | left (reason : ExitReason) (phase : s.phase.isDone = true) (farewell : farewell g s = [reason])
    (whole : ∀ x ∈ g, x.isBreak = false) (reason_eq : reason = .killed ∨ reason = .stopped)
    (asked : s.cancelled = true ∨ d.stopCall ≠ .none)

/-- A worker that is done does nothing more but report its end. -/
theorem SlotStep.done (hslot : SlotStep d i s shown s') (hdone : s.phase.isDone = true)
    (hspawned : i < d.spawned) (hown : ∀ x ∈ shown, x.isRestart = false) (g : List Deed) :
    s'.phase.isDone = true ∧ farewell (g ++ shown) s' = farewell g s ∧
      (∀ x ∈ shown, x.isWork = false) ∧ (s.cancelled = true → s'.cancelled = true) := by
  cases hslot with
  | work labour => cases labour <;> simp_all [Phase.isDone]
  | exit reason error phase =>
    refine ⟨rfl, ?_, by simp [Deed.isWork], id⟩
    simp [farewell, phase, Deed.reason?, Phase.reason?]
  | spawn next => exact absurd hspawned (by omega)
  | restart => cases hown _ List.mem_cons_self
  | ask =>
    refine ⟨hdone, ?_, by simp [Deed.isWork], fun _ => rfl⟩
    simp [farewell, Deed.reason?]
  | cancel => exact ⟨hdone, congrArg (farewell · s) (List.append_nil g), List.forall_mem_nil _, fun _ => rfl⟩
  | idle | handle | join =>
    exact ⟨hdone, congrArg (farewell · s) (List.append_nil g), List.forall_mem_nil _, id⟩

/-- **A step of a worker that has its context**, as long as no receiver ends it. -/
theorem Standing.step (h : Standing d s g) (ho : Orderly d) (hspawned : i < d.spawned)
    (hstep : d.step? action = some d') (hslot : SlotStep d i s shown s')
    (hown : ∀ x ∈ shown, x.isRestart = false) (hreceived : ∀ x ∈ shown, x.isFatal = false) :
    Standing d' s' (g ++ shown) := by
  cases h with
  | broken phase hfarewell hbroken =>
    obtain ⟨hdone, hsame, -, -⟩ := hslot.done phase hspawned hown g
    exact .broken hdone (hsame.trans hfarewell)
      (hbroken.imp fun x hx => ⟨List.mem_append_left _ hx.1, hx.2⟩)
  | left reason phase hfarewell whole hreason hasked =>
    obtain ⟨hdone, hsame, hidle, hcancelled⟩ := hslot.done phase hspawned hown g
    refine .left reason hdone (hsame.trans hfarewell) ?_ hreason
      (hasked.imp hcancelled fun hcall => stopCall_ne_none_of_step hcall hstep)
    exact List.forall_mem_append.2 ⟨whole, fun x hx => Deed.isBreak_of_isWork (hidle x hx)⟩
  | serving phase hfarewell whole =>
    rw [farewell, List.append_eq_nil_iff] at hfarewell
    have hgoing (hphase : s'.phase.isServing = true) (hreason : s'.phase.reason? = none)
        (hshown : shown.filterMap Deed.reason? = []) (hwhole : ∀ x ∈ shown, x.isBreak = false) :
        Standing d' s' (g ++ shown) := by
      refine .serving hphase ?_ (List.forall_mem_append.2 ⟨whole, hwhole⟩)
      rw [farewell, List.filterMap_append, hfarewell.1, hshown, hreason]
      rfl
    cases hslot with
    | work labour =>
      cases labour with
      | prepare hphase | unprepared hphase | load hphase | unloaded hphase =>
        rw [hphase] at phase
        cases phase
      | take => exact hgoing rfl rfl rfl (by simp [Deed.isBreak])
      | quit hphase ended =>
        refine .left (if d.stopping then .stopped else .killed) rfl ?_ (by simpa using whole) ?_ ?_
        · rw [List.append_nil, farewell, hfarewell.1]
          rfl
        · split
          · exact .inr rfl
          · exact .inl rfl
        -- The queue is closed by the call to stop only.
        · refine ended.imp id fun hclosed hnone => ?_
          have hcall : d.stopCall = .none := stopCall_eq_none_of_step hstep hnone
          exact (ho.serving (.inl hcall)).1 (ho.closed hclosed.2)
      | finish c hphase proofs =>
        exact hgoing (Phase.isServing_emit _) (Phase.reason?_emit _) rfl (by simp [Deed.isBreak])
      | fail c hphase e survives => exact hgoing rfl rfl rfl (by simp [survives])
      | «break» c hphase e ends =>
        have hbreak := (Deed.isBreak_error e).trans ends
        refine .broken rfl ?_ ⟨_, List.mem_append_right _ List.mem_cons_self, hbreak⟩
        rw [farewell, List.filterMap_append, hfarewell.1]
        rfl
      | pass p rest hphase =>
        exact hgoing (Phase.isServing_emit _) (Phase.reason?_emit _) rfl (by simp [Deed.isBreak])
      | drop => cases hreceived _ List.mem_cons_self
    | exit reason error hphase =>
      rw [hphase] at phase
      cases phase
    | spawn next => exact absurd hspawned (by omega)
    | restart => cases hown _ List.mem_cons_self
    | ask =>
      exact hgoing phase (Option.toList_eq_nil_iff.1 hfarewell.2) rfl (by simp [Deed.isBreak])
    | idle | handle | cancel | join =>
      exact hgoing phase (Option.toList_eq_nil_iff.1 hfarewell.2) rfl (List.forall_mem_nil _)

/-! ### The order of what it does -/

/-- A worker that had its context and nothing in hand has come to `s` by the deeds `g`. -/
structure Course (d : Dispatcher) (w : ℕ) (s : Slot) (g : List Deed) : Prop where
  slot : d.slots[w]? = some s
  spawned : w < d.spawned
  standing : Standing d s g
  passed : g.flatMap Deed.passes ++ s.phase.owed = g.flatMap Deed.yields
  /-- All that was found before a candidate is taken was passed on before. -/
  settled : ∀ before x after, g = before ++ .took x :: after →
    before.flatMap Deed.passes = before.flatMap Deed.yields
  /-- Nothing comes after an attempt that ends the worker. -/
  silent : ∀ before x after, g = before ++ x :: after → x.isBreak = true →
    ∀ y ∈ after, y.isWork = false

/-- An idle worker has shown nothing yet. -/
theorem Course.start (hs : d.slots[w]? = some s) (hspawned : w < d.spawned)
    (hidle : s.phase = .idle) : Course d w s [] where
  slot := hs
  spawned := hspawned
  standing := .serving (by rw [hidle]; rfl) (by rw [farewell, hidle]; rfl) nofun
  passed := by rw [hidle]; rfl
  settled := by simp
  silent := by simp

/-- A worker shows one deed at a time. -/
theorem SlotStep.shown_cases (hslot : SlotStep d i s shown s') :
    shown = [] ∨ ∃ x, shown = [x] := by
  cases hslot with
  | work labour => cases labour <;> simp
  | _ => simp

/-- Where a deed stands in a list that has one more at its end. -/
theorem concat_eq_append_cons {before after : List Deed} {x y : Deed}
    (h : g ++ [y] = before ++ x :: after) :
    (g = before ∧ y = x ∧ after = []) ∨
      ∃ between, g = before ++ x :: between ∧ after = between ++ [y] := by
  obtain rfl | ⟨between, last, rfl⟩ := after.eq_nil_or_concat
  · obtain ⟨hbefore, hlast⟩ := List.append_inj' h rfl
    exact .inl ⟨hbefore, List.singleton_inj.1 hlast, rfl⟩
  · rw [List.concat_eq_append, ← List.cons_append, ← List.append_assoc] at h
    obtain ⟨hbefore, hlast⟩ := List.append_inj' h rfl
    exact .inr ⟨between, hbefore, by rw [List.concat_eq_append, List.singleton_inj.1 hlast]⟩

/-- A worker takes a candidate when it has nothing in hand. -/
theorem SlotStep.owed_of_took {x : Candidate} (hslot : SlotStep d i s [.took x] s') :
    s.phase.owed = [] := by
  cases hslot with
  | work labour =>
    cases labour with
    | take phase => rw [phase]; rfl

/-- **A step keeps the course.** -/
theorem Course.step (h : Course d w s g) (hd : Carried d) (ho : Orderly d)
    (hstep : d.step? action = some d') (hown : ∀ x ∈ deeds w d action d', x.isRestart = false)
    (hreceived : ∀ x ∈ deeds w d action d', x.isFatal = false) :
    ∃ s', Course d' w s' (g ++ deeds w d action d') := by
  obtain ⟨s', hs', hslot⟩ := (slotSteps_of_step hstep).slot w s h.slot
  have hworked := hslot.worked (hd.absent_of_created h.slot hslot)
  have hstanding := h.standing.step ho h.spawned hstep hslot hown hreceived
  have hone := hslot.shown_cases
  generalize deeds w d action d' = shown at hslot hown hreceived hworked hstanding hone ⊢
  refine ⟨s', hs', h.spawned.trans_le (framed_of_step hstep).spawned, hstanding, ?_, ?_, ?_⟩
  · rw [List.flatMap_append, List.flatMap_append, List.append_assoc, hworked.complete hreceived,
      ← List.append_assoc, h.passed]
  · intro before x after hsplit
    obtain rfl | ⟨y, rfl⟩ := hone
    · rw [List.append_nil] at hsplit
      exact h.settled before x after hsplit
    · obtain ⟨rfl, rfl, -⟩ | ⟨between, hg, -⟩ := concat_eq_append_cons hsplit
      · have hpassed := h.passed
        rwa [hslot.owed_of_took, List.append_nil] at hpassed
      · exact h.settled before x between hg
  · intro before x after hsplit hbreak
    obtain rfl | ⟨y, rfl⟩ := hone
    · rw [List.append_nil] at hsplit
      exact h.silent before x after hsplit hbreak
    · obtain ⟨-, -, rfl⟩ | ⟨between, hg, rfl⟩ := concat_eq_append_cons hsplit
      · exact nofun
      · have hmem : x ∈ g := hg ▸ List.mem_append_right _ List.mem_cons_self
        refine List.forall_mem_append.2 ⟨h.silent before x between hg hbreak, ?_⟩
        -- The worker has been ended by then, and is done.
        cases h.standing with
        | serving _ _ whole | left _ _ _ whole => cases hbreak.symm.trans (whole x hmem)
        | broken phase => exact (hslot.done phase h.spawned hown g).2.2.1

/-- **The course of a worker**, over a run of steps in which it is not replaced and no receiver ends it. -/
theorem course_of_run (hd : Carried d₀) (ho : Orderly d₀) (hs : d₀.slots[w]? = some s₀)
    (hidle : s₀.phase = .idle) (hrun : d₀.run? later = some d)
    (hown : ∀ x ∈ observed (deeds w) d₀ later, x.isRestart = false)
    (hreceived : ∀ x ∈ observed (deeds w) d₀ later, x.isFatal = false) :
    ∃ s, Course d w s (observed (deeds w) d₀ later) := by
  have hspawned := hd.spawned_of_isLive hs (by rw [hidle]; rfl)
  have hboth := run_induction (deeds w)
    (fun d g => Orderly d ∧ Carried d ∧ ((∀ x ∈ g, x.isRestart = false) →
      (∀ x ∈ g, x.isFatal = false) → ∃ s, Course d w s g))
    (fun d g action d' hdg hstep => by
      obtain ⟨ho, hd, hcourse⟩ := hdg
      refine ⟨ho.step hstep, hd.step hstep, fun hown hreceived => ?_⟩
      rw [List.forall_mem_append] at hown hreceived
      obtain ⟨s, hcourse⟩ := hcourse hown.1 hreceived.1
      exact hcourse.step hd ho hstep hown.2 hreceived.2)
    ⟨ho, hd, fun _ _ => ⟨s₀, .start hs hspawned hidle⟩⟩ hrun
  exact hboth.2.2 hown hreceived

/-! ### The next candidate -/

/-- What a worker's steps from `d` to `d'` lead to, on which it passes on these proofs and fails at so many
attempts. -/
structure Advanced (d : Dispatcher) (w : ℕ) (proofs : List MinedProof) (failed : ℕ)
    (s' : Slot) (d' : Dispatcher) : Prop where
  slot : d'.slots[w]? = some s'
  queue : d'.queue = d.queue
  emitted : d'.emitted = d.emitted ++ proofs
  proofs : d'.totals.proofs = d.totals.proofs + proofs.length
  failedAttempts : d'.totals.failedAttempts = d.totals.failedAttempts + failed

/-- A change of a slot is found in it. -/
theorem getElem?_modifySlot (d : Dispatcher) (hs : d.slots[w]? = some s) (f : Slot → Slot) :
    (d.modifySlot w f).slots[w]? = some (f s) := by
  rw [modifySlot_slots hs, List.getElem?_set_self (List.getElem?_eq_some_iff.1 hs).1]

/-- An attempt that does not end its worker leaves it with what it has found. -/
theorem finish_survives (hs : d.slots[w]? = some s) {x : Candidate}
    (hphase : s.phase = .attempting x) {result : AttemptResult}
    (hsurvives : (Deed.finished result).isBreak = false) :
    ∃ s' d', d.step? (.finish w result) = some d' ∧
      Advanced d w [] ([Deed.finished result].countP Deed.isFailure) s' d' ∧
      s'.phase = .emit (Deed.finished result).yields ∧ s'.cancelled = s.cancelled := by
  have hstep : d.step? (.finish w result) = some (d.finishAttempt w s result) := by
    simp only [step?, hs, Option.bind_eq_bind, Option.bind_some, hphase]
    rfl
  cases result with
  | ok proofs =>
    exact ⟨_, _, hstep, ⟨getElem?_modifySlot d hs _, rfl, (List.append_nil _).symm, rfl, rfl⟩, rfl, rfl⟩
  | error e =>
    have hends : e.endsWorker = false := (Deed.isBreak_error e).symm.trans hsurvives
    rw [finishAttempt, hends] at hstep
    refine ⟨_, _, hstep, ⟨getElem?_modifySlot _ hs _, rfl, (List.append_nil _).symm, rfl, ?_⟩, rfl, rfl⟩
    rw [List.countP_singleton, Deed.isFailure_error, hends]
    rfl

/-- What the receiver raises changes nothing, unless it is of an unknown sort. -/
theorem emit_received (hs : d.slots[w]? = some s) {p : MinedProof} {rest : List MinedProof}
    (hphase : s.phase = .emitting (p :: rest)) {result : Except Raised Unit}
    (hreceived : result ≠ .error .unknown) :
    ∃ d', d.step? (.emit w result) = some d' ∧
      Advanced d w [p] 0 { s with phase := .emit rest } d' := by
  have hstep : d.step? (.emit w result) = some (d.emitProof w s p rest result) := by
    simp only [step?, hs, Option.bind_eq_bind, Option.bind_some, hphase]
    rfl
  refine ⟨_, hstep, ?_⟩
  unfold emitProof
  dsimp only
  split
  · exact absurd rfl hreceived
  · exact ⟨getElem?_modifySlot _ hs _, rfl, rfl, rfl, rfl⟩

/-- All proofs are passed on, whatever is raised at the single ones. -/
theorem emit_all (proofs : List MinedProof) {receipts : List (Except Raised Unit)}
    (hlength : receipts.length = proofs.length) (hreceived : ∀ r ∈ receipts, r ≠ .error .unknown)
    (hs : d.slots[w]? = some s) (hphase : s.phase = .emit proofs) :
    ∃ d', d.run? (receipts.map (.emit w)) = some d' ∧
      Advanced d w proofs 0 { s with phase := .idle } d' := by
  induction proofs generalizing d s receipts with
  | nil =>
    obtain rfl := List.eq_nil_of_length_eq_zero hlength
    have hidle : { s with phase := .idle } = s := by
      rw [show Phase.idle = s.phase from hphase.symm]
    exact ⟨d, rfl, hs.trans (congrArg some hidle.symm), rfl, (List.append_nil _).symm, rfl, rfl⟩
  | cons p rest ih =>
    obtain _ | ⟨r, receipts⟩ := receipts
    · cases hlength
    rw [List.forall_mem_cons] at hreceived
    obtain ⟨next, hstep, hnext⟩ := emit_received hs hphase hreceived.1
    obtain ⟨d', hrun, hlast⟩ := ih (Nat.succ.inj hlength) hreceived.2 hnext.slot rfl
    refine ⟨d', ?_, hlast.slot, hlast.queue.trans hnext.queue, ?_, ?_, ?_⟩
    · rw [List.map_cons, run?, hstep]
      exact hrun
    · rw [hlast.emitted, hnext.emitted, List.append_assoc, List.singleton_append]
    · rw [hlast.proofs, hnext.proofs, List.length_cons, Nat.add_assoc]
      exact congrArg _ (Nat.add_comm _ _)
    · rw [hlast.failedAttempts, hnext.failedAttempts]

/-- A worker that is not asked to end takes the candidate that waits. -/
theorem take_next (hs : d.slots[w]? = some s) (hphase : s.phase = .idle)
    (hcancelled : s.cancelled = false) {next : Candidate} {rest : List Candidate}
    (hitems : d.queue.items = next :: rest) :
    ∃ d', d.step? (.take w) = some d' ∧ d'.attempting? w = some next ∧ d'.emitted = d.emitted ∧
      d'.totals.proofs = d.totals.proofs ∧ d'.totals.failedAttempts = d.totals.failedAttempts := by
  have hpop : d.queue.pop false = (.item next, { d.queue with items := rest }) := by
    simp [BoundedQueue.pop, hitems]
  have htake : d.step? (.take w) = some ({ d with
      queue := { d.queue with items := rest }
      totals.attempts := d.totals.attempts + 1 }.modifySlot w
        fun s => { s with phase := .attempting next }) := by
    simp only [step?, hs, Option.bind_eq_bind, Option.bind_some, hphase, if_true, hcancelled, hpop]
    rfl
  refine ⟨_, htake, ?_, rfl, rfl, rfl⟩
  change ((d.slots.modify w fun s => { s with phase := .attempting next })[w]?.bind
    fun s => s.phase.candidate?) = some next
  rw [modify_eq_set hs, List.getElem?_set_self (List.getElem?_eq_some_iff.1 hs).1]
  rfl

/-- **A worker goes on to the next candidate**, whatever comes of the present one and whatever the receiver
raises, unless its attempt ends it or it has been asked to end. -/
theorem goes_on (hs : d.slots[w]? = some s) {x next : Candidate} {rest : List Candidate}
    (hphase : s.phase = .attempting x) (hcancelled : s.cancelled = false)
    (hitems : d.queue.items = next :: rest) {result : AttemptResult}
    (hsurvives : (Deed.finished result).isBreak = false) {receipts : List (Except Raised Unit)}
    (hlength : receipts.length = (Deed.finished result).yields.length)
    (hreceived : ∀ r ∈ receipts, r ≠ .error .unknown) :
    ∃ d', d.run? (.finish w result :: receipts.map (.emit w) ++ [.take w]) = some d' ∧
      d'.attempting? w = some next ∧ d'.emitted = d.emitted ++ (Deed.finished result).yields ∧
      d'.totals.proofs = d.totals.proofs + (Deed.finished result).yields.length ∧
      d'.totals.failedAttempts =
        d.totals.failedAttempts + [Deed.finished result].countP Deed.isFailure := by
  obtain ⟨s₁, d₁, hfinish, hfinished, hfound, hsame⟩ := finish_survives hs hphase hsurvives
  obtain ⟨d₂, hemit, hemitted⟩ := emit_all _ hlength hreceived hfinished.slot hfound
  have hqueue : d₂.queue.items = next :: rest := by rw [hemitted.queue, hfinished.queue, hitems]
  obtain ⟨d', htake, hnext, hsent, hproofs, hfailed⟩ :=
    take_next hemitted.slot rfl (hsame.trans hcancelled) hqueue
  refine ⟨d', ?_, hnext, ?_, ?_, ?_⟩
  · rw [List.cons_append, run?, hfinish, Option.bind_some, run?_append, hemit, Option.bind_some, run?,
      htake]
    rfl
  · rw [hsent, hemitted.emitted, hfinished.emitted, List.append_nil]
  · rw [hproofs, hemitted.proofs, hfinished.proofs]
    rfl
  · rw [hfailed, hemitted.failedAttempts, hfinished.failedAttempts]
    rfl

/-! ### What is contained -/

/-- What the worker of slot `w`, which had its context and nothing in hand when its slot was `s₀`, has come
to when the slots have done `h`. -/
structure Contained (d₀ d : Dispatcher) (w : ℕ) (s₀ s : Slot) (h : ℕ → List Deed) : Prop where
  /-- It crashes if and only if an attempt ends it. -/
  crashed : .crashed ∈ farewell (h w) s ↔ ∃ x ∈ h w, x.isBreak = true
  /-- Otherwise it serves, until it is asked to end or the dispatcher stops. -/
  serves : (∀ x ∈ h w, x.isBreak = false) → s.phase.isServing = true ∨
    ((farewell (h w) s = [.killed] ∨ farewell (h w) s = [.stopped]) ∧
      (s.cancelled = true ∨ d.stopCall ≠ .none))
  /-- An attempt that ends it is the last thing that it does. -/
  silent : ∀ before x after, h w = before ++ x :: after → x.isBreak = true →
    ∀ y ∈ after, y.isWork = false
  /-- Every proof that was found is passed on once, in order, but for those that are still in hand, -/
  passed : (h w).flatMap Deed.passes ++ s.phase.owed = (h w).flatMap Deed.yields
  /-- and before the next candidate. -/
  settled : ∀ before x after, h w = before ++ .took x :: after →
    before.flatMap Deed.passes = before.flatMap Deed.yields
  /-- The slot counts attempts, failures and proofs, -/
  booked : Booked s₀ s (h w)
  /-- and the totals do so for all slots. -/
  billed : Billed d₀ d h
  /-- A candidate that waits is next, whatever comes of the present one. -/
  goesOn : ∀ x next rest, s.phase = .attempting x → s.cancelled = false →
    d.queue.items = next :: rest →
    ∀ (result : AttemptResult) (receipts : List (Except Raised Unit)),
      (Deed.finished result).isBreak = false →
      receipts.length = (Deed.finished result).yields.length →
      (∀ r ∈ receipts, r ≠ .error .unknown) →
      ∃ d', d.run? (.finish w result :: receipts.map (.emit w) ++ [.take w]) = some d' ∧
        d'.attempting? w = some next ∧ d'.emitted = d.emitted ++ (Deed.finished result).yields ∧
        d'.totals.proofs = d.totals.proofs + (Deed.finished result).yields.length ∧
        d'.totals.failedAttempts =
          d.totals.failedAttempts + [Deed.finished result].countP Deed.isFailure

/-- **Failures are contained**: of the worker that serves in slot `w`, as long as it is not replaced and the
receiver of its proofs raises nothing but errors. -/
theorem failures_contained (hreachable : Reachable c d₀) (hs : d₀.slots[w]? = some s₀)
    (hidle : s₀.phase = .idle) (hrun : d₀.run? later = some d)
    (hown : ∀ x ∈ observed (deeds w) d₀ later, x.isRestart = false)
    (hreceived : ∀ x ∈ observed (deeds w) d₀ later, x.isFatal = false) :
    ∃ s, d.slots[w]? = some s ∧
      Contained d₀ d w s₀ s fun i => observed (deeds i) d₀ later := by
  have hd := carried_of_reachable hreachable
  obtain ⟨s, hcourse⟩ :=
    course_of_run hd (orderly_of_reachable hreachable) hs hidle hrun hown hreceived
  obtain ⟨t, ht, hbooked, -⟩ := slot_of_run hd hrun hs
  obtain rfl := Option.some.inj (ht.symm.trans hcourse.slot)
  refine ⟨t, ht, {
    crashed := ?_
    serves := fun whole => ?_
    silent := hcourse.silent
    passed := hcourse.passed
    settled := hcourse.settled
    booked := hbooked
    billed := billed_of_run hd hrun
    goesOn := fun x next rest hphase hcancelled hitems result receipts hsurvives hlength hreceived =>
      goes_on ht hphase hcancelled hitems hsurvives hlength hreceived }⟩
  · cases hcourse.standing with
    | serving _ hfarewell whole => simpa [hfarewell] using whole
    | broken _ hfarewell hbroken => simp [hfarewell, hbroken]
    | left reason _ hfarewell whole hreason =>
      rcases hreason with rfl | rfl <;> simpa [hfarewell] using whole
  · cases hcourse.standing with
    | serving phase => exact .inl phase
    | broken _ _ hbroken =>
      obtain ⟨x, hx, hbreak⟩ := hbroken
      cases hbreak.symm.trans (whole x hx)
    | left reason _ hfarewell _ hreason hasked =>
      refine .inr ⟨?_, hasked⟩
      rcases hreason with rfl | rfl
      · exact .inl hfarewell
      · exact .inr hfarewell

/-- Two workers, of which the first one has its context, and three candidates. -/
def laden : List Action := [
  .start, .spawn, .spawn, .prepare 0, .load 0 (.ok ()), .deliver { id := 1 }, .arrive 0, .handle,
  .deliver { id := 2 }, .arrive 0, .handle, .deliver { id := 3 }, .arrive 0, .handle]

/-- The receiver fails at the first of two proofs, the second attempt fails, and the third one ends the
worker. -/
def failing : List Action := [
  .take 0, .finish 0 (.ok [{ nonce := 1 }, { nonce := 2 }]), .emit 0 (.error (.error "disk full")),
  .emit 0 (.ok ()), .take 0, .finish 0 (.error (.raised "no")), .take 0,
  .finish 0 (.error (.fatal "worker state corrupted")), .exit 0]

theorem failures_contained_failing : ∃ d₀ d s₀ s, (new pair).run? laden = some d₀ ∧
    d₀.slots[0]? = some s₀ ∧ s₀.phase = .idle ∧ d₀.run? failing = some d ∧
    (∀ x ∈ observed (deeds 0) d₀ failing, x.isRestart = false) ∧
    (∀ x ∈ observed (deeds 0) d₀ failing, x.isFatal = false) ∧ d.slots[0]? = some s ∧
    Contained d₀ d 0 s₀ s (fun i => observed (deeds i) d₀ failing) ∧
    farewell (observed (deeds 0) d₀ failing) s = [.crashed] ∧
    d.emitted.map MinedProof.nonce = [1, 2] ∧ d.totals.toList = [3, 0, 0, 3, 1, 2, 0, 0] := by
  have hladen : (new pair).run? laden = some _ := rfl
  obtain ⟨s, hs, hcontained⟩ := failures_contained (w := 0) (reachable_of_run hladen) rfl rfl
    (show run? _ failing = some _ by rfl) (by decide) (by decide)
  cases hs
  exact ⟨_, _, _, _, rfl, rfl, rfl, rfl, by decide, by decide, rfl, hcontained, rfl, rfl, rfl⟩

end Dispatcher
end ProofMiner

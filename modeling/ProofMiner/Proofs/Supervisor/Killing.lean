/-
# What a request to end a worker leads to

A request raises the cancel flag of a slot, which the worker sees when it looks for a candidate and the
next generation finds lowered again. What follows is told by the deeds of the slot, cut off where the next
generation begins: an attempt that is under way is carried to its end and its proofs are passed on, and
nothing is taken from the queue any more (`Ending`).

However often it is asked for, one end follows and one restart at most. So over the whole history of the
slot restarts are no more than the generations that were asked to end and the ends that have another
reason (`Tally`).
-/

import ProofMiner.Proofs.Supervisor.Stopping

namespace ProofMiner

namespace Deed

/-- Deeds by their sort. -/
def isRestart : Deed → Bool
  | restarted => true
  | _ => false

def isTake : Deed → Bool
  | took _ => true
  | _ => false

def isFinish : Deed → Bool
  | finished _ => true
  | _ => false

/-- The proofs that an attempt finds. -/
def yields : Deed → List MinedProof
  | finished (.ok proofs) => proofs
  | _ => []

/-- The proofs that are passed on. -/
def passes : Deed → List MinedProof
  | passed p _ => [p]
  | _ => []

/-- The receiver of a proof fails in a way that ends the worker. -/
def isFatal : Deed → Bool
  | passed _ (.error .unknown) => true
  | _ => false

/-- The worker reports its end, for a reason of this kind. -/
def isEnd (kind : ExitReason → Bool) : Deed → Bool
  | ended reason => kind reason
  | _ => false

end Deed

/-- What a slot does until its next generation begins. -/
def ownDeeds (h : List Deed) : List Deed := h.takeWhile fun x => !x.isRestart

/-- The generations of a slot that were asked to end, each counted once. -/
structure Requests where
  /-- The present generation is one of them. -/
  present : Bool := false
  generations : ℕ := 0

/-- A second request for one generation is not counted. -/
def Requests.note (r : Requests) : Deed → Requests
  | .asked => ⟨true, if r.present then r.generations else r.generations + 1⟩
  | .restarted => { r with present := false }
  | _ => r

/-- The requests in a history. -/
def requests (h : List Deed) : Requests := h.foldl Requests.note {}

theorem requests_append (h shown : List Deed) :
    requests (h ++ shown) = shown.foldl Requests.note (requests h) := List.foldl_append

/-- A worker that takes up nothing any more. -/
def Phase.isDone : Phase → Bool
  | absent | leaving _ _ => true
  | _ => false

/-- A construction that fails is not the end of a killed worker. -/
theorem ContextFault.reason_ne_killed (e : ContextFault) : e.reason ≠ .killed := by
  unfold ContextFault.reason
  split <;> simp

namespace Dispatcher

variable {c : Config} {d d' : Dispatcher} {action : Action} {actions : List Action}
variable {i w : ℕ} {s₀ s s' : Slot} {g h shown : List Deed}

/-! ### The generation that is asked to end -/

/-- A generation that was asked to end in `s₀` has come to `s` by the deeds `g`. -/
structure Ending (s₀ s : Slot) (g : List Deed) : Prop where
  asked : s.cancelled = true
  taken : ∀ x ∈ g, x.isTake = false
  finished : g.countP Deed.isFinish + s.phase.candidate?.isSome.toNat ≤
    s₀.phase.candidate?.isSome.toNat
  /-- All proofs are passed on, unless the receiver ends the worker. -/
  passed : g.flatMap Deed.passes ++ s.phase.owed = s₀.phase.owed ++ g.flatMap Deed.yields ∨
    (s.phase.isDone = true ∧ (∃ x ∈ g, x.isFatal = true) ∧
      g.flatMap Deed.passes <+: s₀.phase.owed ++ g.flatMap Deed.yields)
  ended : g.countP (Deed.isEnd fun _ => true) + s.phase.isLive.toNat = s₀.phase.isLive.toNat

/-- The request itself is the first deed. -/
theorem Ending.start (s : Slot) (hs : s.cancelled = true) : Ending s s [.asked] where
  asked := hs
  taken := by simp [Deed.isTake]
  finished := by simp [Deed.isFinish]
  passed := .inl (by simp [Deed.passes, Deed.yields])
  ended := by simp [Deed.isEnd]

/-- What the deeds add on each side is what the slot changes. -/
theorem Ending.append (h : Ending s₀ s g)
    (hpassed : shown.flatMap Deed.passes ++ s'.phase.owed =
      s.phase.owed ++ shown.flatMap Deed.yields)
    (hended : shown.countP (Deed.isEnd fun _ => true) + s'.phase.isLive.toNat =
      s.phase.isLive.toNat)
    (hfinished : shown.countP Deed.isFinish + s'.phase.candidate?.isSome.toNat ≤
      s.phase.candidate?.isSome.toNat)
    (hdone : s.phase.isDone = true → s'.phase.isDone = true ∧ shown.flatMap Deed.passes = [])
    (htaken : ∀ x ∈ shown, x.isTake = false := by simp [Deed.isTake])
    (hcancelled : s.cancelled = true → s'.cancelled = true := by exact id) :
    Ending s₀ s' (g ++ shown) where
  asked := hcancelled h.asked
  taken := List.forall_mem_append.2 ⟨h.taken, htaken⟩
  finished := by
    have hbefore := h.finished
    rw [List.countP_append]
    omega
  passed := by
    rw [List.flatMap_append, List.flatMap_append]
    refine h.passed.imp (fun hbefore => ?_) fun ⟨hleft, ⟨x, hx, hfatal⟩, hprefix⟩ => ?_
    · rw [List.append_assoc, hpassed, ← List.append_assoc, hbefore, List.append_assoc]
    · obtain ⟨hleft', hpasses⟩ := hdone hleft
      refine ⟨hleft', ⟨x, List.mem_append_left _ hx, hfatal⟩, ?_⟩
      rw [hpasses, List.append_nil, ← List.append_assoc]
      exact hprefix.trans (List.prefix_append _ _)
  ended := by
    have hbefore := h.ended
    rw [List.countP_append]
    omega

/-- The receiver of a proof ends the worker. -/
theorem Ending.drop {p : MinedProof} {rest : List MinedProof} (h : Ending s₀ s g)
    (hphase : s.phase = .emitting (p :: rest)) (error : String) :
    Ending s₀ { s with phase := .leaving .crashed error } (g ++ [.passed p (.error .unknown)]) where
  asked := h.asked
  taken := List.forall_mem_append.2 ⟨h.taken, by simp [Deed.isTake]⟩
  finished := by
    have hbefore := h.finished
    rw [hphase] at hbefore
    rwa [List.countP_append]
  passed := by
    have hbefore := h.passed.resolve_right fun hleft => by
      rw [hphase] at hleft
      cases hleft.1
    rw [List.flatMap_append, List.flatMap_append]
    refine .inr ⟨rfl, ⟨_, List.mem_append_right _ List.mem_cons_self, rfl⟩, ?_⟩
    rw [hphase] at hbefore
    exact ⟨rest, by simpa [Deed.passes, Deed.yields, Phase.owed] using hbefore⟩
  ended := by
    have hbefore := h.ended
    rw [hphase] at hbefore
    rwa [List.countP_append]

/-- Whatever it does, a worker that was asked to end takes up nothing new. -/
theorem Ending.labour (h : Ending s₀ s g) (hlabour : Labour d s shown s') :
    Ending s₀ s' (g ++ shown) := by
  cases hlabour with
  | prepare phase | unprepared phase | load phase | unloaded phase | quit phase =>
    refine h.append ?_ ?_ ?_ ?_ <;>
    simp [phase, Phase.owed, Phase.candidate?, Phase.isDone, Phase.isLive]
  | take phase cancelled => cases h.asked.symm.trans cancelled
  | finish c phase proofs =>
    refine h.append ?_ ?_ ?_ ?_ <;> rw [phase]
    · rw [Phase.owed_emit]
      exact (List.append_nil _).symm
    · rw [Phase.isLive_emit]
      rfl
    · rw [Phase.candidate?_emit]
      exact Nat.le_refl _
    · exact fun hdone => absurd hdone Bool.false_ne_true
  | fail c phase e | «break» c phase e =>
    refine h.append ?_ ?_ ?_ ?_ <;> rw [phase]
    · rfl
    · rfl
    · exact Nat.le_refl _
    · exact fun hdone => absurd hdone Bool.false_ne_true
  | pass p rest phase =>
    refine h.append ?_ ?_ ?_ ?_ <;> rw [phase]
    · rw [Phase.owed_emit]
      exact (List.append_nil _).symm
    · rw [Phase.isLive_emit]
      rfl
    · rw [Phase.candidate?_emit]
      exact Nat.le_refl _
    · exact fun hdone => absurd hdone Bool.false_ne_true
  | drop p rest phase => exact h.drop phase _

/-- What keeps a slot from being touched by the calls to start and stop. -/
structure Going (d : Dispatcher) (w : ℕ) : Prop where
  orderly : Orderly d
  call : d.stopCall = .none
  spawned : w < d.spawned
  /-- A restart finds no worker. -/
  resting : ∀ (rest : List ℕ) (s : Slot), d.control = .respawning w rest →
    d.slots[w]? = some s → s.phase.isLive = false

/-- **A step of the generation** that was asked to end, other than the restart that replaces it. -/
theorem Ending.step (h : Ending s₀ s g) (hd : Going d w) (hslot : SlotStep d w s shown s')
    (hshown : ∀ x ∈ shown, x.isRestart = false) : Ending s₀ s' (g ++ shown) := by
  cases hslot with
  | work labour => exact h.labour labour
  | exit reason error phase =>
    refine h.append ?_ ?_ ?_ ?_ <;> rw [phase]
    · rfl
    · rfl
    · exact Nat.le_refl _
    · exact fun _ => ⟨rfl, rfl⟩
  | spawn next => exact absurd hd.spawned (by omega)
  | idle | handle =>
    exact h.append (List.append_nil _).symm (Nat.zero_add _) (Nat.zero_add _).le fun hdone =>
      ⟨hdone, rfl⟩
  | ask =>
    exact h.append (List.append_nil _).symm (Nat.zero_add _) (Nat.zero_add _).le
      (fun hdone => ⟨hdone, rfl⟩) (by simp [Deed.isTake]) fun _ => rfl
  | restart => cases hshown _ List.mem_cons_self
  | cancel posted => cases hd.call.symm.trans posted
  | join joining => cases hd.call.symm.trans joining

/-! ### Restarts and their causes -/

theorem countP_concat (p : Deed → Bool) (g : List Deed) (x : Deed) :
    (g ++ [x]).countP p = g.countP p + (p x).toNat := by
  rw [List.countP_append, List.countP_singleton]
  cases p x <;> rfl

/-- What is known of a slot after `h`, where it was asked to end in `s₀`. -/
structure Tally (s₀ s : Slot) (h : List Deed) : Prop where
  /-- A request is for the present generation only. -/
  present : (requests h).present = s.cancelled
  /-- Nobody leaves as killed who was not asked to end. -/
  killed : s.phase.reason? = some .killed → s.cancelled = true
  /-- Every restart follows an end. -/
  restarts : h.countP Deed.isRestart + (!s.phase.isLive).toNat =
    h.countP (Deed.isEnd (· == .killed)) + h.countP (Deed.isEnd (· != .killed)) +
      (!s₀.phase.isLive).toNat
  /-- A worker that ends as killed, and one that had ended before the request, is of a generation that
  was asked to end. -/
  asked : h.countP (Deed.isEnd (· == .killed)) + (!s₀.phase.isLive).toNat +
    (s.phase.isLive && s.cancelled).toNat ≤ (requests h).generations

/-- The generation that is asked is the first one to be accounted for. -/
theorem Tally.start (s : Slot) (hs : s.cancelled = true) : Tally s s [.asked] where
  present := hs.symm
  killed _ := hs
  restarts := by simp [Deed.isRestart, Deed.isEnd]
  asked := by cases s.phase.isLive <;> simp [Deed.isEnd, requests, Requests.note, hs]

/-- Nothing is counted. -/
theorem Tally.quiet (h : Tally s₀ s g) (hkilled : s'.phase.reason? = some .killed →
      s.cancelled = true)
    (hlive : s'.phase.isLive = s.phase.isLive) (hcancelled : s'.cancelled = s.cancelled)
    (hrequests : ∀ r : Requests, shown.foldl Requests.note r = r := by exact fun _ => rfl)
    (hrestarts : shown.countP Deed.isRestart = 0 := by rfl)
    (hends : ∀ kind, shown.countP (Deed.isEnd kind) = 0 := by exact fun _ => rfl) :
    Tally s₀ s' (g ++ shown) where
  present := by rw [requests_append, hrequests, hcancelled, h.present]
  killed := by rwa [hcancelled]
  restarts := by
    rw [List.countP_append, List.countP_append, List.countP_append, hrestarts, hends, hends, hlive]
    exact h.restarts
  asked := by
    rw [List.countP_append, hends, requests_append, hrequests, hlive, hcancelled]
    exact h.asked

/-- A worker that is sent away while the dispatcher runs was asked to end. -/
theorem Going.cancelled_of_sent (hd : Going d w)
    (hsent : s.cancelled = true ∨ d.queue.items = [] ∧ d.queue.closed = true) :
    s.cancelled = true :=
  hsent.resolve_right fun hclosed =>
    (hd.orderly.serving (.inl hd.call)).1 (hd.orderly.closed hclosed.2)

/-- Whatever its worker does, a slot stays accounted for. -/
theorem Tally.labour (h : Tally s₀ s g) (hd : Going d w) (hlabour : Labour d s shown s') :
    Tally s₀ s' (g ++ shown) := by
  have hlive := hlabour.live'.trans hlabour.live.symm
  have hsame := hlabour.same.1
  cases hlabour with
  | prepare | unprepared | load | take | fail | «break» | drop =>
    exact h.quiet (by simp [Phase.reason?]) hlive hsame
  | unloaded phase e =>
    refine h.quiet (fun hreason => ?_) hlive hsame
    exact absurd (Option.some.inj hreason) e.reason_ne_killed
  | quit phase ended => exact h.quiet (fun _ => hd.cancelled_of_sent ended) hlive hsame
  | finish | pass => exact h.quiet (by simp) hlive hsame

/-- **A step of the slot.** -/
theorem Tally.step (h : Tally s₀ s g) (hd : Going d w) (hs : d.slots[w]? = some s)
    (hslot : SlotStep d w s shown s') : Tally s₀ s' (g ++ shown) := by
  cases hslot with
  | idle | handle => exact h.quiet h.killed rfl rfl
  | work labour => exact h.labour hd labour
  | exit reason error phase =>
    obtain ⟨present, killed, restarts, asked⟩ := h
    rw [phase] at killed restarts asked
    refine ⟨by rw [requests_append]; exact present, nofun, ?_, ?_⟩
    · have hone : (reason == .killed).toNat + (reason != .killed).toNat = 1 := by
        cases reason <;> rfl
      rw [countP_concat, countP_concat, countP_concat]
      change _ + 0 = _ at restarts
      change _ + 0 + 1 = _ + (reason == .killed).toNat + (_ + (reason != .killed).toNat) + _
      omega
    · rw [countP_concat, requests_append]
      by_cases hreason : reason = .killed
      · rw [killed (by rw [hreason]; rfl)] at asked
        subst hreason
        change _ + _ + 1 ≤ (requests g).generations at asked
        change _ + 1 + _ + 0 ≤ (requests g).generations
        omega
      · rw [Deed.isEnd, beq_false_of_ne hreason]
        exact (Nat.le_add_right _ _).trans asked
  | spawn next => exact absurd hd.spawned (by omega)
  | ask =>
    obtain ⟨present, killed, restarts, asked⟩ := h
    refine ⟨by rw [requests_append]; rfl, fun _ => rfl, ?_, ?_⟩
    · simpa [Deed.isEnd, Deed.isRestart] using restarts
    · rw [requests_append]
      cases hcancelled : s.cancelled <;>
      simp [hcancelled, present, Deed.isEnd, Requests.note] at asked ⊢ <;>
      have hlive := Bool.toNat_le s.phase.isLive <;> omega
  | restart rest control =>
    have hdead := hd.resting rest s control hs
    obtain ⟨present, killed, restarts, asked⟩ := h
    rw [hdead] at restarts asked
    refine ⟨by rw [requests_append]; rfl, nofun, ?_, ?_⟩
    · simp [Deed.isEnd, Deed.isRestart, nextGeneration, Phase.isLive] at restarts ⊢
      omega
    · rw [requests_append]
      simpa [Deed.isEnd, nextGeneration, Requests.note] using asked
  | cancel posted => cases hd.call.symm.trans posted
  | join joining => cases hd.call.symm.trans joining

/-! ### Runs -/

/-- A slot whose restart is due has no worker. -/
theorem Supervised.not_live_of_respawning {p : RestartPolicy} {h : List Lifecycle}
    (hd : Supervised p d h) {rest : List ℕ} (hcontrol : d.control = .respawning w rest)
    (hs : d.slots[w]? = some s) : s.phase.isLive = false := by
  have hdue : (d.account h w).due ≠ 0 := by
    simp [account, due, hcontrol, Control.workers]
  cases (hd.slot w s hs).stand with
  | working spawned live exits due => exact absurd due hdue
  | _ => assumption

/-- A slot that has not been put down as terminated has got its first worker. -/
theorem Supervised.spawned_of_grants {p : RestartPolicy} {h : List Lifecycle}
    (hd : Supervised p d h) (hs : d.slots[w]? = some s) (hstatus : s.status ≠ .terminated) :
    w < d.spawned := by
  cases (hd.slot w s hs).stand with
  | unspawned spawned live exits due status => exact absurd status hstatus
  | working spawned | reported spawned | awaiting spawned | retired spawned =>
    exact of_decide_eq_true spawned

/-- A restart is shown by itself. -/
theorem SlotStep.restarted_or (hslot : SlotStep d i s shown s') :
    shown = [.restarted] ∨ ∀ x ∈ shown, x.isRestart = false := by
  cases hslot with
  | restart => exact .inl rfl
  | work labour => cases labour <;> simp [Deed.isRestart]
  | _ => simp [Deed.isRestart]

/-- Up to the first restart all deeds are its own, and none after it. -/
theorem ownDeeds_append (hnone : ∀ x ∈ h, x.isRestart = false) (shown : List Deed) :
    ownDeeds (h ++ shown) = h ++ ownDeeds shown :=
  List.takeWhile_append_of_pos fun x hx => by rw [hnone x hx]; rfl

theorem ownDeeds_append_of_restart (hsome : ∃ x ∈ h, x.isRestart = true) (shown : List Deed) :
    ownDeeds (h ++ shown) = ownDeeds h := by
  induction h with
  | nil => simp at hsome
  | cons x rest ih =>
    rw [List.cons_append, ownDeeds, ownDeeds, List.takeWhile_cons, List.takeWhile_cons]
    cases hx : x.isRestart with
    | true => rfl
    | false => exact congrArg (x :: ·) (ih (by simpa [hx] using hsome))

/-- Without a restart all of them are. -/
theorem ownDeeds_eq_self (hnone : ∀ x ∈ h, x.isRestart = false) : ownDeeds h = h := by
  simpa [ownDeeds] using ownDeeds_append hnone []

/-- How slot `w` stands after `h`, in a run in which its worker was asked to end when it was `s₀`. -/
structure Asked (p : RestartPolicy) (w : ℕ) (s₀ : Slot) (d : Dispatcher) (h : List Deed) :
    Prop where
  spawned : w < d.spawned
  supervised : ∃ h, Supervised p d h
  slot : ∃ s, d.slots[w]? = some s ∧ Tally s₀ s h ∧
    ∃ s₁, Ending s₀ s₁ (ownDeeds h) ∧ (s₁ = s ∨ ∃ x ∈ h, x.isRestart = true)

/-- Before the call to stop, a slot that was asked goes on. -/
theorem Asked.going {p : RestartPolicy} (h : Asked p w s₀ d g) (ho : Orderly d)
    (hcall : d.stopCall = .none) : Going d w := by
  obtain ⟨shown, hd⟩ := h.supervised
  exact ⟨ho, hcall, h.spawned, fun rest s hcontrol hs => hd.not_live_of_respawning hcontrol hs⟩

/-- **A step after the request.** -/
theorem Asked.step {p : RestartPolicy} (h : Asked p w s₀ d g) (ho : Orderly d)
    (hstep : d.step? action = some d') (hcall' : d'.stopCall = .none) :
    Asked p w s₀ d' (g ++ deeds w d action d') := by
  have hgoing := h.going ho (stopCall_eq_none_of_step hstep hcall')
  obtain ⟨shown, hd⟩ := h.supervised
  obtain ⟨s, hs, htally, s₁, hending, hlast⟩ := h.slot
  obtain ⟨s', hs', hslot⟩ := (slotSteps_of_step hstep).slot w s hs
  refine ⟨h.spawned.trans_le (framed_of_step hstep).spawned,
    ⟨_, Supervised.step (fun _ => hd) ho hstep hcall'⟩, s', hs', htally.step hgoing hs hslot, ?_⟩
  by_cases hsome : ∃ x ∈ g, x.isRestart = true
  · rw [ownDeeds_append_of_restart hsome]
    obtain ⟨x, hx, hrestart⟩ := hsome
    exact ⟨s₁, hending, .inr ⟨x, List.mem_append_left _ hx, hrestart⟩⟩
  · obtain rfl := hlast.resolve_right hsome
    have hnone : ∀ x ∈ g, x.isRestart = false := by simpa using hsome
    rw [ownDeeds_append hnone]
    rw [ownDeeds_eq_self hnone] at hending
    obtain hrestart | hquiet := hslot.restarted_or
    · rw [hrestart]
      refine ⟨s₁, ?_, .inr ⟨_, List.mem_append_right _ List.mem_cons_self, rfl⟩⟩
      rwa [ownDeeds, List.takeWhile_cons_of_neg (by simp [Deed.isRestart]), List.append_nil]
    · rw [ownDeeds_eq_self hquiet]
      exact ⟨s', hending.step hgoing hslot hquiet, .inl rfl⟩

/-- A request for `w` was granted when its slot was `s`, and by the deeds `h` the slot came to `s'`. -/
structure KillHonoured (s s' : Slot) (h : List Deed) : Prop where
  /-- The generation takes no candidate any more, -/
  taken : ∀ x ∈ ownDeeds h, x.isTake = false
  /-- and finishes no attempt but the one that it is in. -/
  finished : (ownDeeds h).countP Deed.isFinish ≤ s.phase.candidate?.isSome.toNat
  /-- It passes on what it has still to pass on and then what the attempt finds, in order, -/
  passed : (ownDeeds h).flatMap Deed.passes <+:
    s.phase.owed ++ (ownDeeds h).flatMap Deed.yields
  /-- and all of it before its end, unless the receiver ends it. -/
  complete : (∃ x ∈ ownDeeds h, x.isEnd (fun _ => true) = true) →
    (∀ x ∈ ownDeeds h, x.isFatal = false) →
      (ownDeeds h).flatMap Deed.passes = s.phase.owed ++ (ownDeeds h).flatMap Deed.yields
  /-- It ends once, if it has not ended already. -/
  ended : (ownDeeds h).countP (Deed.isEnd fun _ => true) ≤ s.phase.isLive.toNat
  /-- A restart is for the end of a generation that was asked for, however often, or for an end of
  another sort. -/
  restarts : h.countP Deed.isRestart ≤
    (requests h).generations + h.countP (Deed.isEnd (· != .killed))
  /-- No request reaches beyond its generation. -/
  cancelled : s'.cancelled = (requests h).present

/-- **The request is honoured** in every state that such a run comes to. -/
theorem Asked.honoured {p : RestartPolicy} (h : Asked p w s₀ d g) :
    ∃ s, d.slots[w]? = some s ∧ KillHonoured s₀ s g := by
  obtain ⟨s, hs, htally, s₁, hending, -⟩ := h.slot
  refine ⟨s, hs, hending.taken, (Nat.le_add_right _ _).trans hending.finished, ?_, ?_,
    (Nat.le_add_right _ _).trans_eq hending.ended, ?_, htally.present.symm⟩
  · rcases hending.passed with hequal | hleft
    · rw [← hequal]
      exact List.prefix_append _ _
    · exact hleft.2.2
  · rintro ⟨x, hx, hend⟩ hreceived
    have hequal := hending.passed.resolve_right fun ⟨_, ⟨y, hy, hfatal⟩, _⟩ => by
      cases (hreceived y hy).symm.trans hfatal
    -- An end is shown, so the worker is gone and has nothing left to pass on.
    have hpos := List.countP_pos_iff.2 ⟨x, hx, hend⟩
    have hbalance := hending.ended
    have hlive := Bool.toNat_le s₀.phase.isLive
    have habsent : s₁.phase = .absent := by
      refine Phase.eq_absent_of_isLive (Bool.toNat_eq_zero.1 ?_)
      omega
    rw [habsent] at hequal
    exact (List.append_nil _).symm.trans hequal
  · have hrestarts := htally.restarts
    have hasked := htally.asked
    omega

/-! ### Who else is touched -/

/-- The steps that lead from a request to end the worker of slot `w` to its restart, but for the end of
an attempt that was under way. -/
def Action.settles (w : ℕ) (d : Dispatcher) : Action → Prop
  | .kill v => v = w
  | .take v => v = w ∧ ∃ s, d.slots[w]? = some s ∧ s.cancelled = true
  | .exit v => v = w
  | .handle => ∃ generation reason error rest,
    d.mailbox = .exited w generation reason error :: rest
  | .collect | .decide => True
  | .respawn => ∃ rest, d.control = .respawning w rest
  | _ => False

/-- A step that concerns nobody but the worker of slot `w`. -/
structure Apart (w : ℕ) (d d' : Dispatcher) : Prop where
  others : ∀ i ≠ w, d'.slots[i]? = d.slots[i]?
  queue : d'.queue = d.queue
  emitted : d'.emitted = d.emitted
  totals : d'.totals = { d.totals with restarts := d'.totals.restarts }

/-- A step that changes one slot and nothing that is shared. -/
theorem Apart.of_slots (hslots : ∀ i ≠ w, d'.slots[i]? = d.slots[i]? := by exact fun _ _ => rfl)
    (hqueue : d'.queue = d.queue := by rfl) (hemitted : d'.emitted = d.emitted := by rfl)
    (htotals : d'.totals = { d.totals with restarts := d'.totals.restarts } := by rfl) :
    Apart w d d' := ⟨hslots, hqueue, hemitted, htotals⟩

theorem getElem?_modify_of_ne (f : Slot → Slot) (i : ℕ) (hi : i ≠ w) :
    (d.slots.modify w f)[i]? = d.slots[i]? := List.getElem?_modify_ne f _ hi.symm

/-- The steps that settle the worker of one slot leave the others alone. -/
theorem apart_of_settles (hsettles : action.settles w d) (hstep : d.step? action = some d') :
    Apart w d d' := by
  cases action with
  | kill v =>
    obtain rfl : v = w := hsettles
    obtain rfl := Option.some.inj hstep
    exact .of_slots (getElem?_modify_of_ne _)
  | take v =>
    obtain ⟨rfl, s, hs, hcancelled⟩ := hsettles
    rw [step?, hs, Option.bind_eq_bind, Option.bind_some, Option.ite_none_right_eq_some, hcancelled,
      BoundedQueue.pop_cancelled] at hstep
    obtain rfl := Option.some.inj hstep.2
    exact .of_slots (getElem?_modify_of_ne _)
  | exit v =>
    obtain rfl : v = w := hsettles
    obtain ⟨s, reason, error, -, -, rfl⟩ := exit_step hstep
    unfold post
    split <;> exact .of_slots (getElem?_modify_of_ne _)
  | handle =>
    obtain ⟨generation, reason, error, rest, hmailbox⟩ := hsettles
    obtain ⟨event, rest', -, hmailbox', rfl⟩ := handle_step hstep
    obtain ⟨rfl, rfl⟩ := List.cons.inj (hmailbox.symm.trans hmailbox')
    rcases handleExit_cases { d with mailbox := rest } w generation reason error with
      ⟨-, heq⟩ | ⟨s, hs, -, ⟨-, heq⟩ | ⟨-, -, ⟨due, heq⟩ | heq⟩⟩ <;>
    rw [handleEvent, heq]
    · exact .of_slots
    all_goals exact .of_slots fun i hi => List.getElem?_set_ne hi.symm
  | collect =>
    obtain ⟨-, -, rfl⟩ := collect_step hstep
    exact .of_slots
  | decide =>
    obtain ⟨v, rest, -, rfl⟩ := decide_step hstep
    exact .of_slots
  | respawn =>
    obtain ⟨rest, hcontrol⟩ := hsettles
    obtain ⟨v, rest', hcontrol', rfl⟩ := respawn_step hstep
    obtain ⟨rfl, -⟩ := Control.respawning.inj (hcontrol.symm.trans hcontrol')
    exact .of_slots (getElem?_modify_of_ne _)
  | _ => exact hsettles.elim

/-- **A request to end a worker is honoured**, in whatever state of a running dispatcher it is granted
and whatever follows as long as nobody stops the dispatcher. -/
theorem kill_honoured (hrun : (new c).run? actions = some d) (hrunning : d.running = true)
    (hgrants : d.grantsKill w = true) :
    ∃ s, d.slots[w]? = some s ∧ d.step? (.kill w) =
        some { d with slots := d.slots.set w { s with cancelled := true } } ∧
      ∀ later d', d.run? (.kill w :: later) = some d' → d'.stopCall = .none →
        (∃ s', d'.slots[w]? = some s' ∧
          KillHonoured s s' (observed (deeds w) d (.kill w :: later))) ∧
        ∀ action d'', action.settles w d' → d'.step? action = some d'' → Apart w d' d'' := by
  have hcall : d.stopCall = .none := by
    simpa [running, stopping] using (Bool.and_eq_true_iff.1 hrunning).2
  have hd := supervised_of_run hrun hcall
  have ho := orderly_of_reachable (reachable_of_run hrun)
  obtain ⟨s, hs, hstatus⟩ : ∃ s, d.slots[w]? = some s ∧ s.status ≠ .terminated := by
    rw [grantsKill] at hgrants
    split at hgrants
    next s hs => exact ⟨s, hs, of_decide_eq_true hgrants⟩
    next => cases hgrants
  have hkill : d.step? (.kill w) =
      some { d with slots := d.slots.set w { s with cancelled := true } } := by
    rw [step?, modifySlot, modify_eq_set hs, if_neg hstatus]
  refine ⟨s, hs, hkill, fun later d' hlater hgoing => ⟨?_, fun action d'' => apart_of_settles⟩⟩
  rw [run?, hkill, Option.bind_some] at hlater
  have hasked : deeds w d (.kill w) { d with slots := d.slots.set w { s with cancelled := true } } =
      [.asked] := if_pos ⟨rfl, hgrants⟩
  rw [observed, hkill]
  dsimp only
  rw [hasked]
  have hstart : Asked c.policy w { s with cancelled := true }
      { d with slots := d.slots.set w { s with cancelled := true } } [.asked] := by
    refine ⟨hd.spawned_of_grants hs hstatus, ⟨_, Supervised.step (fun _ => hd) ho hkill hcall⟩,
      { s with cancelled := true }, ?_, .start _ rfl, _, .start _ rfl, .inl rfl⟩
    exact List.getElem?_set_self (List.getElem?_eq_some_iff.1 hs).1
  have hboth := run_induction (deeds w)
    (fun e g => Orderly e ∧ (e.stopCall = .none →
      Asked c.policy w { s with cancelled := true } e g))
    (fun e g action e' he hstep => ⟨he.1.step hstep, fun hcall' =>
      (he.2 (stopCall_eq_none_of_step hstep hcall')).step he.1 hstep hcall'⟩)
    ⟨ho.step hkill, fun _ => hstart⟩ hlater
  obtain ⟨s', hs', h⟩ := (hboth.2 hgoing).honoured
  exact ⟨s', hs', h.taken, h.finished, h.passed, h.complete, h.ended, h.restarts, h.cancelled⟩

/-- Two workers. -/
def pair : Config := { workers := 2, queueCapacity := 4 }

/-- The first of them is busy with a candidate, and another one waits in the queue. -/
def halfBusy : List Action := [
  .start, .spawn, .spawn, .deliver { id := 1 }, .arrive 0, .handle, .deliver { id := 2 }, .arrive 0,
  .handle, .prepare 0, .load 0 (.ok ()), .take 0]

/-- It is asked to end twice more, finishes with a proof, and is restarted. -/
def askedAgain : List Action := [
  .kill 0, .finish 0 (.ok [{}]), .kill 0, .emit 0 (.ok ()), .take 0, .exit 0, .handle, .respawn]

theorem kill_honoured_halfBusy : ∃ d d' s s', (new pair).run? halfBusy = some d ∧
    d.running = true ∧ d.grantsKill 0 = true ∧ d.slots[0]? = some s ∧
    d.run? (.kill 0 :: askedAgain) = some d' ∧ d'.stopCall = .none ∧ d'.slots[0]? = some s' ∧
    KillHonoured s s' (observed (deeds 0) d (.kill 0 :: askedAgain)) ∧
    (observed (deeds 0) d (.kill 0 :: askedAgain)).countP Deed.isRestart = 1 ∧
    (d'.slots.map fun s => (s.generation, s.restarts, s.lastExit, s.attempts)) =
      [(1, 1, .killed, 1), (0, 0, .none, 0)] ∧
    d'.queue.items.map Candidate.id = [2] ∧ d'.emitted.length = 1 := by
  have hrun : (new pair).run? halfBusy = some _ := rfl
  obtain ⟨s, hs, -, hlater⟩ := kill_honoured (w := 0) hrun rfl rfl
  obtain ⟨⟨s', hs', honoured⟩, -⟩ := hlater askedAgain _ rfl rfl
  exact ⟨_, _, s, s', rfl, rfl, rfl, hs, rfl, rfl, hs', honoured, rfl, rfl, rfl, rfl⟩

end Dispatcher
end ProofMiner

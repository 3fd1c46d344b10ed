/-
# How long a slot waits for its next generation

The delay of a restart grows with a counter in the slot, which is set when the control loop handles the end
of a worker, and depends on a flag that the worker raises when it has completed an attempt and that the next
generation finds lowered again. What the counter stands for is told by the deeds of the slot, cut into its
generations: the latest ones in a row that were fruitless, which is to say that they completed no attempt
and did not end because they were asked to (`inRow`). It does not count a generation before its end is
handled (`Counted`).

A restart with a delay is noted with its due time, which is a time of 64 bits (`toInt_dueTime`). From then
on nothing happens to the slot until that time has come (`Awaits`): it has no worker, no report of one and
no second restart waiting, so that no step is one of this slot.
-/

import ProofMiner.Proofs.Supervisor.Ledger

namespace ProofMiner

namespace Deed

/-- A generation begins. -/
def isBirth : Deed → Bool
  | spawned | restarted => true
  | _ => false

/-- An attempt is completed, with or without success: it leaves its worker alive. -/
def completes (x : Deed) : Bool := x.isFinish && !x.isBreak

end Deed

/-- The deeds of each generation of a slot, the latest generation first. -/
def generations (h : List Deed) : List (List Deed) :=
  h.foldl (fun gs x => if x.isBirth then [] :: gs else gs.modifyHead (· ++ [x])) []

/-- A generation that ended, though not because it was asked to, and completed no attempt. -/
def fruitless (g : List Deed) : Bool := g.any (Deed.isEnd (· != .killed)) && !g.any Deed.completes

/-- The number of the latest generations in a row that were fruitless. -/
def inRow (gs : List (List Deed)) : ℕ := (gs.takeWhile fruitless).length

/-- The delay of a restart after so many fruitless generations in a row, in milliseconds. -/
def RestartPolicy.delayAfter (p : RestartPolicy) (n : ℕ) : ℤ := (p.backoff (.ofNat n)).toInt

/-- The latest generation goes on with the row or ends it. -/
theorem inRow_cons (g : List Deed) (gs : List (List Deed)) :
    inRow (g :: gs) = if fruitless g then inRow gs + 1 else 0 := by
  rw [inRow, List.takeWhile_cons]
  split <;> rfl

/-- A row is no longer than there are generations. -/
theorem inRow_le_length (gs : List (List Deed)) : inRow gs ≤ gs.length :=
  (List.takeWhile_sublist _).length_le

/-- A birth begins a generation of its own. -/
theorem generations_concat_of_isBirth (h : List Deed) {x : Deed} (hx : x.isBirth = true) :
    generations (h ++ [x]) = [] :: generations h := by
  rw [generations, List.foldl_append, List.foldl_cons, List.foldl_nil, if_pos hx, generations]

/-- What the present generation does is added to it. -/
theorem generations_append {h g shown : List Deed} {gs : List (List Deed)}
    (hgs : generations h = g :: gs) (hshown : ∀ x ∈ shown, x.isBirth = false) :
    generations (h ++ shown) = (g ++ shown) :: gs := by
  induction shown generalizing h g with
  | nil => rw [List.append_nil, List.append_nil, hgs]
  | cons x shown ih =>
    rw [List.forall_mem_cons] at hshown
    have hnext : generations (h ++ [x]) = (g ++ [x]) :: gs := by
      rw [generations, List.foldl_append, ← generations, hgs, List.foldl_cons, List.foldl_nil,
        if_neg (by simp [hshown.1]), List.modifyHead_cons]
    rw [List.append_cons, List.append_cons g]
    exact ih hnext hshown.2

/-- The reason for the end that an event reports, if it is one of the given worker. -/
def Event.reason? (worker : ℕ) : Event → Option ExitReason
  | .exited w _ reason _ => if w = worker then some reason else none
  | _ => none

/-- A report tells why its worker ended, and which one it was. -/
theorem Event.reason?_exited (worker : ℕ) (generation : UInt64) (reason : ExitReason)
    (error : String) : (exited worker generation reason error).reason? worker = some reason :=
  if_pos rfl

theorem Event.isSome_reason? (worker : ℕ) (event : Event) :
    (event.reason? worker).isSome = (event.exit? worker).isSome := by
  cases event with
  | exited w =>
    rw [reason?, exit?]
    split <;> rfl
  | _ => rfl

namespace Dispatcher

variable {c : Config} {d d' : Dispatcher} {action : Action} {actions : List Action}
variable {i : ℕ} {s s' : Slot} {h shown g : List Deed} {gs : List (List Deed)}
variable {p : RestartPolicy} {lives lives' : List Lifecycle}

/-! ### Reports -/

/-- The reasons of the ends of a worker that are reported in the mailbox. -/
def reports (d : Dispatcher) (worker : ℕ) : List ExitReason :=
  d.mailbox.filterMap (Event.reason? worker)

/-- There are as many reports as ends. -/
theorem length_reports (d : Dispatcher) (i : ℕ) : (d.reports i).length = (d.exits i).length := by
  rw [reports, exits, List.length_filterMap_eq_countP, List.length_filterMap_eq_countP]
  exact congrArg (d.mailbox.countP ·) (funext (Event.isSome_reason? i))

/-- How many reports there are is known from the slot: one if its worker is gone and that is not yet
noted, otherwise none. -/
theorem Supervised.length_reports_eq (hd : Supervised p d lives) (hs : d.slots[i]? = some s) :
    (d.reports i).length = if s.phase.isLive ∨ s.status = .terminated then 0 else 1 := by
  rw [length_reports]
  have hexits : d.exits i = (d.account lives i).exits := rfl
  cases (hd.slot i s hs).stand with
  | unspawned _ live exits _ status | awaiting _ live exits _ status | retired _ live exits _ status =>
    rw [hexits, exits, if_pos (.inr status)]
    rfl
  | working _ live exits =>
    rw [hexits, exits, if_pos (.inl live)]
    rfl
  | reported _ live exits _ status =>
    rw [hexits, exits, if_neg (by simp [live, status])]
    rfl

/-- An event other than a stop leaves the mailbox to the next one. -/
theorem mailbox_handleEvent {event : Event} (hevent : event ≠ .stop) (rest : List Event) :
    (d.handleEvent event rest).mailbox = rest := by
  cases event with
  | stop => exact absurd rfl hevent
  | candidate x =>
    rcases handleCandidate_cases { d with mailbox := rest } x with
      ⟨-, heq⟩ | ⟨-, -, -, heq⟩ | ⟨-, -, -, heq⟩ | ⟨-, -, heq⟩ <;>
      rw [handleEvent, heq]
  | exited w generation reason error =>
    rcases handleExit_cases { d with mailbox := rest } w generation reason error with
      ⟨-, heq⟩ | ⟨t, -, -, ⟨-, heq⟩ | ⟨-, -, ⟨due, heq⟩ | heq⟩⟩ <;>
      rw [handleEvent, heq]

/-- Reports are added at the end and taken from the front, while nobody stops the dispatcher. -/
theorem reports_of_step (ho : Orderly d) (hcall : d.stopCall = .none)
    (hstep : d.step? action = some d') (i : ℕ) :
    (action ≠ .handle ∧ d.reports i <+: d'.reports i) ∨
      ∃ event rest, d.mailbox = event :: rest ∧
        d.reports i = (event.reason? i).toList ++ d'.reports i := by
  by_cases haction : action = .handle
  · subst haction
    obtain ⟨event, rest, -, hmailbox, rfl⟩ := handle_step hstep
    have hevent : event ≠ .stop := by
      rintro rfl
      exact (ho.serving (.inl hcall)).2 (hmailbox ▸ List.mem_cons_self)
    refine .inr ⟨event, rest, hmailbox, ?_⟩
    rw [reports, reports, hmailbox, mailbox_handleEvent hevent, List.filterMap_cons]
    cases event.reason? i <;> rfl
  · exact .inl ⟨haction, ((framed_of_step hstep).mailbox haction).filterMap _⟩

/-! ### The counter -/

/-- What the counter of a slot stands for after `h`, with these reports of its worker in the mailbox. -/
inductive Counted (s : Slot) (h : List Deed) (reports : List ExitReason) : Prop
  /-- The end of every generation is handled. -/
  | settled (live : s.phase.isLive = false) (reports_eq : reports = [])
    (failures : s.failures = .ofNat (inRow (generations h)))
  /-- The latest generation goes on. -/
  | working (g : List Deed) (gs : List (List Deed)) (generations_eq : generations h = g :: gs)
    (live : s.phase.isLive = true) (reports_eq : reports = [])
    (going : ∀ kind, g.any (Deed.isEnd kind) = false)
    (completed : s.completedAttempt = g.any Deed.completes)
    (failures : s.failures = .ofNat (inRow gs))
  /-- The end of the latest generation is reported and not handled. -/
  | reported (g : List Deed) (gs : List (List Deed)) (generations_eq : generations h = g :: gs)
    (live : s.phase.isLive = false) (reason : ExitReason) (reports_eq : reports = [reason])
    (ended : ∀ kind, g.any (Deed.isEnd kind) = kind reason)
    (completed : s.completedAttempt = g.any Deed.completes)
    (failures : s.failures = .ofNat (inRow gs))

namespace Counted

variable {r r' : List ExitReason}

/-- A worker is created. -/
theorem birth (hc : Counted s h r) (hlive : s.phase.isLive = false) (hr : r = [])
    (hlive' : s'.phase.isLive = true) (hfailures : s'.failures = s.failures)
    (hcompleted : s'.completedAttempt = false) {x : Deed} (hx : x.isBirth = true) :
    Counted s' (h ++ [x]) [] := by
  cases hc with
  | settled _ _ failures =>
    exact .working [] _ (generations_concat_of_isBirth h hx) hlive' rfl (fun _ => rfl) hcompleted
      (hfailures.trans failures)
  | working _ _ _ live => cases hlive.symm.trans live
  | reported _ _ _ _ reason reports_eq => cases hr.symm.trans reports_eq

/-- The worker takes a step other than its last one. -/
theorem labour (hc : Counted s h r) (hlabour : Labour d s shown s') :
    Counted s' (h ++ shown) [] := by
  cases hc with
  | settled live | reported _ _ _ live => cases live.symm.trans hlabour.live
  | working g gs generations_eq live _ going completed failures =>
    have hsame := hlabour.same
    have hlive' := hlabour.live'
    have hshown : (∀ x ∈ shown, x.isBirth = false) ∧
        (∀ kind, shown.any (Deed.isEnd kind) = false) ∧
        s'.completedAttempt = (s.completedAttempt || shown.any Deed.completes) := by
      cases hlabour <;> simp_all [Deed.isBirth, Deed.isEnd, Deed.completes, Deed.isFinish]
    refine .working (g ++ shown) gs (generations_append generations_eq hshown.1) hlive' rfl
      (fun kind => ?_) ?_ (hsame.2.2.2.2.1.trans failures)
    · rw [List.any_append, going, hshown.2.1]
      rfl
    · rw [List.any_append, hshown.2.2, completed]

/-- The worker reports its end. -/
theorem exit (hc : Counted s h r) (hlive : s.phase.isLive = true) (reason : ExitReason) :
    Counted { s with phase := .absent } (h ++ [.ended reason]) [reason] := by
  cases hc with
  | settled live | reported _ _ _ live => cases live.symm.trans hlive
  | working g gs generations_eq live _ going completed failures =>
    refine .reported (g ++ [.ended reason]) gs (generations_append generations_eq ?_) rfl reason rfl
      (fun kind => ?_) ?_ failures
    · exact List.forall_mem_singleton.2 rfl
    · rw [List.any_append, going]
      exact (Bool.or_false _).trans (Bool.false_or _)
    · rw [List.any_append]
      exact completed.trans (Bool.or_false _).symm

/-- Somebody asks for the end of the worker. -/
theorem ask (hc : Counted s h r) (hr : r ≠ [] ∨ s.phase.isLive = true) :
    Counted { s with cancelled := true } (h ++ [.asked]) r := by
  cases hc with
  | settled live reports_eq => exact absurd hr (by simp [live, reports_eq])
  | working g gs generations_eq live reports_eq going completed failures =>
    refine .working (g ++ [.asked]) gs (generations_append generations_eq ?_) live reports_eq
      (fun kind => ?_) ?_ failures
    · exact List.forall_mem_singleton.2 rfl
    · rw [List.any_append, going]
      rfl
    · rw [List.any_append]
      exact completed.trans (Bool.or_false _).symm
  | reported g gs generations_eq live reason reports_eq ended completed failures =>
    refine .reported (g ++ [.asked]) gs (generations_append generations_eq ?_) live reason reports_eq
      (fun kind => ?_) ?_ failures
    · exact List.forall_mem_singleton.2 rfl
    · rw [List.any_append, ended]
      exact Bool.or_false _
    · rw [List.any_append]
      exact completed.trans (Bool.or_false _).symm

/-- **The end of the worker is handled**: a fruitless generation is counted, and any other one sets the
counter back. -/
theorem handle {reason : ExitReason} (hc : Counted s h (reason :: r)) (error : String) :
    r = [] ∧ s.phase.isLive = false ∧
      (s.ended reason error).failures = .ofNat (inRow (generations h)) := by
  cases hc with
  | settled _ reports_eq | working _ _ _ _ reports_eq => cases reports_eq
  | reported g gs generations_eq live _ reports_eq ended completed failures =>
    obtain ⟨rfl, rfl⟩ := List.cons.inj reports_eq
    refine ⟨rfl, live, ?_⟩
    have hfruitless : fruitless g = true ↔ ¬ (s.completedAttempt = true ∨ reason = .killed) := by
      rw [fruitless, ended, ← completed]
      simp [and_comm]
    rw [generations_eq, inRow_cons, Slot.ended]
    by_cases hreset : s.completedAttempt = true ∨ reason = .killed
    · rw [if_pos hreset, if_neg (mt hfruitless.1 (not_not.2 hreset))]
      rfl
    · rw [if_neg hreset, if_pos (hfruitless.2 hreset), failures]
      exact (UInt32.ofNat_add _ 1).symm

end Counted

/-- Where as many reports wait after a step as before it, they are the same ones. -/
theorem reports_eq_of_length (ho : Orderly d) (hcall : d.stopCall = .none)
    (hstep : d.step? action = some d') (hlength : (d'.reports i).length = (d.reports i).length) :
    d'.reports i = d.reports i := by
  rcases reports_of_step ho hcall hstep i with ⟨-, hmore⟩ | ⟨event, rest, -, heq⟩
  · exact (hmore.eq_of_length hlength.symm).symm
  · rw [heq, List.length_append, Nat.right_eq_add, List.length_eq_zero_iff] at hlength
    rw [heq, hlength, List.nil_append]

/-- A worker is created where no report waits. -/
theorem Carried.reports_eq_nil (hd : Carried d) (hs : d.slots[i]? = some s)
    (hcreated : d.spawned = i ∨ ∃ rest, d.control = .respawning i rest) : d.reports i = [] := by
  have hslot := hd.slot i s hs
  rw [waiting] at hslot
  rw [List.eq_nil_iff_length_eq_zero, length_reports]
  rcases hcreated with rfl | ⟨rest, hcontrol⟩
  · rw [decide_eq_false (Nat.lt_irrefl _), Bool.toNat_false] at hslot
    omega
  · have hdue : 0 < d.due i := by
      rw [due, hcontrol, Control.workers, List.count_append, List.count_cons_self]
      omega
    have hspawned := Bool.toNat_le (decide (i < d.spawned))
    omega

/-- **A step of a slot** moves the counter on when an end is handled, and not before. -/
theorem Counted.step (hc : Counted s h (d.reports i)) (hd : Supervised p d lives)
    (hd' : Supervised p d' lives') (hcarried : Carried d) (ho : Orderly d)
    (hstep : d.step? action = some d') (hcall' : d'.stopCall = .none)
    (hs : d.slots[i]? = some s) (hs' : d'.slots[i]? = some s')
    (hslot : SlotStep d i s (deeds i d action d') s') :
    Counted s' (h ++ deeds i d action d') (d'.reports i) := by
  have hcall := stopCall_eq_none_of_step hstep hcall'
  have hbefore := hd.length_reports_eq hs
  have hafter := hd'.length_reports_eq hs'
  have hnone (hquiet : s'.phase.isLive = true ∨ s'.status = .terminated) : d'.reports i = [] := by
    rw [List.eq_nil_iff_length_eq_zero, hafter, if_pos hquiet]
  have hcomes (x : Deed) (hx : x ∈ deeds i d action d') : ComesOf i d action x := comesOf_of_mem hx
  generalize deeds i d action d' = shown at hslot hcomes ⊢
  cases hslot with
  | idle =>
    rw [List.append_nil, reports_eq_of_length ho hcall hstep (hafter.trans hbefore.symm)]
    exact hc
  | work labour =>
    rw [hnone (.inl labour.live')]
    exact hc.labour labour
  | exit reason error phase =>
    obtain ⟨rfl, -⟩ := hcomes _ List.mem_cons_self
    obtain ⟨t, reason', error', ht, hphase, rfl⟩ := exit_step hstep
    obtain rfl := Option.some.inj (hs.symm.trans ht)
    obtain ⟨rfl, rfl⟩ := Phase.leaving.inj (phase.symm.trans hphase)
    have hlive : s.phase.isLive = true := by rw [phase]; rfl
    have hopen : (d.modifySlot i fun s => { s with phase := .absent }).control ≠ .ended :=
      (ho.serving (.inl hcall)).1
    have hreports : d.reports i = [] := by
      rw [List.eq_nil_iff_length_eq_zero, hbefore, if_pos (.inl hlive)]
    rw [post_of_ne_ended hopen, reports, List.filterMap_append]
    change Counted _ _ (d.reports i ++ _)
    rw [hreports, List.filterMap_cons_some (Event.reason?_exited ..)]
    exact hc.exit hlive reason
  | spawn next =>
    have habsent := hcarried.absent_of_created hs (.spawn next) (.inl List.mem_cons_self)
    have hreports := hcarried.reports_eq_nil hs (.inl next)
    rw [hnone (.inl rfl)]
    refine hc.birth ?_ hreports ?_ ?_ ?_ ?_
    · rw [habsent]
      rfl
    all_goals rfl
  | restart rest control =>
    have habsent := hcarried.absent_of_created hs (.restart rest control) (.inr List.mem_cons_self)
    have hreports := hcarried.reports_eq_nil hs (.inr ⟨rest, control⟩)
    rw [hnone (.inl rfl)]
    refine hc.birth ?_ hreports ?_ ?_ ?_ ?_
    · rw [habsent]
      rfl
    all_goals rfl
  | ask status =>
    rw [reports_eq_of_length ho hcall hstep (hafter.trans hbefore.symm)]
    refine hc.ask (or_iff_not_imp_right.2 fun hlive hnil => ?_)
    rw [hnil, if_neg (not_or.2 ⟨hlive, status⟩)] at hbefore
    cases hbefore
  | handle reason error rest control mailbox =>
    have hempty := hnone (.inr rfl)
    rcases reports_of_step ho hcall hstep i with ⟨-, hmore⟩ | ⟨event, rest', hmailbox, heq⟩
    · rw [hempty, List.prefix_nil, reports, mailbox,
        List.filterMap_cons_some (Event.reason?_exited ..)] at hmore
      cases hmore
    · obtain ⟨rfl, rfl⟩ := List.cons.inj (mailbox.symm.trans hmailbox)
      rw [heq, Event.reason?_exited] at hc
      obtain ⟨-, hlive, hfailures⟩ := hc.handle error
      rw [List.append_nil]
      exact .settled hlive hempty hfailures
  | cancel posted =>
    rw [posted] at hcall
    cases hcall
  | join joining =>
    rw [joining] at hcall
    cases hcall

/-- No slot has a generation in the beginning. -/
theorem counted_new (c : Config) (hs : (new c).slots[i]? = some s) : Counted s [] [] := by
  obtain rfl := List.eq_of_mem_replicate (List.mem_of_getElem? hs)
  exact .settled rfl rfl rfl

/-- **The counter after a run**, if nobody has asked the dispatcher to stop. -/
theorem counted_of_run (hrun : (new c).run? actions = some d) (hcall : d.stopCall = .none)
    (hs : d.slots[i]? = some s) :
    Counted s (observed (deeds i) (new c) actions) (d.reports i) := by
  have hall := run_induction (deeds i)
    (fun d h => Orderly d ∧ Carried d ∧ (d.stopCall = .none → (∃ lives, Supervised c.policy d lives) ∧
      ∀ s, d.slots[i]? = some s → Counted s h (d.reports i)))
    (fun d h action d' hd hstep => by
      obtain ⟨ho, hcarried, hwatched⟩ := hd
      refine ⟨ho.step hstep, hcarried.step hstep, fun hcall' => ?_⟩
      obtain ⟨⟨lives, hd⟩, hcounted⟩ := hwatched (stopCall_eq_none_of_step hstep hcall')
      have hd' := Supervised.step (fun _ => hd) ho hstep hcall'
      refine ⟨⟨_, hd'⟩, fun s' hs' => ?_⟩
      obtain ⟨s, hs, hslot⟩ := (slotSteps_of_step hstep).slot' hs'
      exact (hcounted s hs).step hd hd' hcarried ho hstep hcall' hs hs' hslot)
    ⟨orderly_new c, carried_new c, fun _ => ⟨⟨_, supervised_new c⟩, fun _ => counted_new c⟩⟩ hrun
  exact (hall.2.2 hcall).2 s hs

/-! ### Restarts for later -/

/-- What passing time does to the restarts for later: none is taken up before its due time. -/
structure Lapse (d d' : Dispatcher) : Prop where
  clock : d.clock ≤ d'.clock
  pending : ∀ q ∈ d.pending, q ∈ d'.pending ∨ q.due.toInt ≤ d.clock

/-- The clock goes on with the time. -/
theorem clock_le_clock (hnow : d.now ≤ d'.now) : d.clock ≤ d'.clock := by
  rw [clock, clock]
  omega

/-- Where neither the time nor what is pending changes, nothing is taken up. -/
theorem Lapse.of_eq (hpending : d'.pending = d.pending) (hnow : d'.now = d.now) : Lapse d d' :=
  ⟨clock_le_clock hnow.ge, fun _ hq => .inl (hpending ▸ hq)⟩

theorem lapse_post (d : Dispatcher) (event : Event) : Lapse d (d.post event) := by
  unfold post
  split <;> exact .of_eq rfl rfl

theorem lapse_handleEvent (d : Dispatcher) (event : Event) (rest : List Event) :
    Lapse d (d.handleEvent event rest) := by
  cases event with
  | stop => exact .of_eq rfl rfl
  | candidate x =>
    rcases handleCandidate_cases { d with mailbox := rest } x with
      ⟨-, heq⟩ | ⟨-, -, -, heq⟩ | ⟨-, -, -, heq⟩ | ⟨-, -, heq⟩ <;>
      rw [handleEvent, heq] <;> exact .of_eq rfl rfl
  | exited w generation reason error =>
    rcases handleExit_cases { d with mailbox := rest } w generation reason error with
      ⟨-, heq⟩ | ⟨t, -, -, ⟨-, heq⟩ | ⟨-, -, ⟨due, heq⟩ | heq⟩⟩ <;>
      rw [handleEvent, heq]
    · exact .of_eq rfl rfl
    · exact .of_eq rfl rfl
    · exact ⟨le_rfl, fun q hq => .inl (List.mem_append_left _ hq)⟩
    · exact .of_eq rfl rfl

/-- **No restart is taken up too early.** -/
theorem lapse_of_step (hstep : d.step? action = some d') : Lapse d d' := by
  cases hworker : action.worker? with
  | some w =>
    rcases worker_step hworker hstep with ⟨t, t', hquiet⟩ | ⟨-, t, t', x, rest, htaking⟩
    · rw [hquiet.frame]
      exact .of_eq rfl rfl
    · rw [htaking.frame]
      exact .of_eq rfl rfl
  | none =>
    cases action with
    | start | deliver =>
      obtain rfl := Option.some.inj hstep
      split <;> exact .of_eq rfl rfl
    | spawn =>
      obtain ⟨-, -, rfl⟩ := spawn_step hstep
      exact .of_eq rfl rfl
    | stop => rcases stop_step hstep with ⟨-, rfl⟩ | ⟨-, -, -, rfl⟩ <;> exact .of_eq rfl rfl
    | postStop =>
      obtain ⟨-, rfl⟩ := postStop_step hstep
      exact { lapse_post d .stop with }
    | cancelWorkers =>
      obtain ⟨-, -, rfl⟩ := cancelWorkers_step hstep
      exact .of_eq rfl rfl
    | closeQueue =>
      obtain ⟨-, rfl⟩ := closeQueue_step hstep
      exact .of_eq rfl rfl
    | join => obtain ⟨w, -, ⟨-, rfl⟩ | ⟨t, -, -, rfl⟩⟩ := join_step hstep <;> exact .of_eq rfl rfl
    | arrive n =>
      obtain ⟨x, -, rfl⟩ := arrive_step hstep
      exact { lapse_post { d with delivering := d.delivering.eraseIdx n } (.candidate x) with }
    | enable | kill =>
      obtain rfl := Option.some.inj hstep
      exact .of_eq rfl rfl
    | handle =>
      obtain ⟨event, rest, -, -, rfl⟩ := handle_step hstep
      exact lapse_handleEvent d event rest
    | collect =>
      obtain ⟨-, -, rfl⟩ := collect_step hstep
      refine ⟨le_rfl, fun q hq => or_iff_not_imp_right.2 fun hlate => ?_⟩
      exact List.mem_filter.2 ⟨hq, by simp [hlate]⟩
    | decide =>
      obtain ⟨w, rest, -, rfl⟩ := decide_step hstep
      exact .of_eq rfl rfl
    | respawn =>
      obtain ⟨w, rest, -, rfl⟩ := respawn_step hstep
      exact .of_eq rfl rfl
    | exit w =>
      obtain ⟨t, reason, error, -, -, rfl⟩ := exit_step hstep
      exact { lapse_post (d.modifySlot w fun s => { s with phase := .absent })
        (.exited w t.workerGeneration reason error) with }
    | wait ms =>
      obtain rfl := Option.some.inj hstep
      exact ⟨clock_le_clock (Nat.le_add_right _ _), fun q hq => .inl hq⟩
    | _ => cases hworker

/-- Slot `i` is in the state `s` and waits for its restart at the time `due`. -/
structure Awaits (d : Dispatcher) (i : ℕ) (due : Int64) (s : Slot) : Prop where
  slot : d.slots[i]? = some s
  pending : ⟨i, due⟩ ∈ d.pending
  /-- There is no other restart of it. -/
  once : d.due i = 1
  terminated : s.status = .terminated
  gone : s.phase = .absent
  /-- A request to end its worker is refused. -/
  refused : d.grantsKill i = false

/-- A slot with a pending restart awaits it. -/
theorem Supervised.awaits (hd : Supervised p d lives) (hs : d.slots[i]? = some s) {due : Int64}
    (hmem : ⟨i, due⟩ ∈ d.pending) : Awaits d i due s := by
  have hcount : 0 < (d.pending.map PendingRestart.worker).count i :=
    List.count_pos_iff.2 (List.mem_map.2 ⟨_, hmem, rfl⟩)
  have hsome : d.due i ≠ 0 := by
    rw [Dispatcher.due, List.count_append]
    omega
  cases (hd.slot i s hs).stand with
  | awaiting _ live _ once status =>
    refine ⟨hs, hmem, once, status, Phase.eq_absent_of_isLive live, ?_⟩
    simp [grantsKill, hs, status]
  | unspawned _ _ _ due | working _ _ _ due | reported _ _ _ due | retired _ _ _ due =>
    exact absurd due hsome

/-- No step is one of a slot that waits for its restart. -/
theorem SlotStep.eq_of_awaits {due : Int64} (h : Awaits d i due s) (hd : Supervised p d lives)
    (hcall : d.stopCall = .none) (hslot : SlotStep d i s shown s') : s' = s := by
  have hdead : s.phase.isLive = false := by rw [h.gone]; rfl
  cases hslot with
  | idle => rfl
  | work labour => cases hdead.symm.trans labour.live
  | exit reason error phase => cases h.gone.symm.trans phase
  | ask status => exact absurd h.terminated status
  | spawn next =>
    have hnone := h.once
    cases (hd.slot i s h.slot).stand with
    | unspawned _ _ _ due => cases hnone.symm.trans due
    | working spawned | reported spawned | awaiting spawned | retired spawned =>
      exact absurd (of_decide_eq_true spawned) (by omega)
  | handle reason error rest control mailbox =>
    have hreports := hd.length_reports_eq h.slot
    rw [if_pos (.inr h.terminated), reports, mailbox,
      List.filterMap_cons_some (Event.reason?_exited ..)] at hreports
    cases hreports
  | restart rest control =>
    have honce := h.once
    have hcount : 0 < (d.pending.map PendingRestart.worker).count i :=
      List.count_pos_iff.2 (List.mem_map.2 ⟨_, h.pending, rfl⟩)
    rw [Dispatcher.due, control, Control.workers, List.count_append, List.count_cons_self] at honce
    omega
  | cancel posted => cases hcall.symm.trans posted
  | join joining => cases hcall.symm.trans joining

/-- **A slot waits for its due time**, while nobody stops the dispatcher. -/
theorem Awaits.run {due : Int64} (h : Awaits d i due s) (hd : Supervised p d lives) (ho : Orderly d)
    (hrun : d.run? actions = some d') (hcall : d'.stopCall = .none)
    (hclock : d'.clock < due.toInt) :
    Awaits d' i due s := by
  have hall := run_induction (fun _ _ _ => ([] : List Unit))
    (fun d _ => Orderly d ∧ (d.stopCall = .none → (∃ lives, Supervised p d lives) ∧
      (d.clock < due.toInt → Awaits d i due s)))
    (fun d _ action d' hd hstep => by
      obtain ⟨ho, hwaits⟩ := hd
      refine ⟨ho.step hstep, fun hcall' => ?_⟩
      have hcall := stopCall_eq_none_of_step hstep hcall'
      obtain ⟨⟨lives, hd⟩, hwaits⟩ := hwaits hcall
      have hd' := Supervised.step (fun _ => hd) ho hstep hcall'
      refine ⟨⟨_, hd'⟩, fun hclock' => ?_⟩
      have hlapse := lapse_of_step hstep
      have hclock := hlapse.clock.trans_lt hclock'
      have hbefore := hwaits hclock
      obtain ⟨s', hs', hslot⟩ := (slotSteps_of_step hstep).slot i s hbefore.slot
      obtain rfl := hslot.eq_of_awaits hbefore hd hcall
      refine hd'.awaits hs' ((hlapse.pending _ hbefore.pending).resolve_right ?_)
      exact not_le.2 hclock)
    (h := []) ⟨ho, fun _ => ⟨⟨lives, hd⟩, fun _ => h⟩⟩ hrun
  exact (hall.2 hcall).2 hclock

/-! ### What is decided -/

/-- A due time that has room in 64 bits is as much later as the delay. -/
theorem toInt_dueTime {delay : ℤ} (hdelay : 0 ≤ delay) (hfits : d.clock + delay * 1000000 < 2 ^ 63) :
    (d.dueTime delay).toInt = d.clock + delay * 1000000 := by
  have hclock : 0 ≤ d.clock := by
    rw [clock]
    omega
  rw [dueTime]
  exact Int64.toInt_ofInt_of_le (by omega) hfits

/-- What follows the handled end of the latest worker of a slot, while nobody stops the dispatcher. -/
theorem handleExit_of_generation_eq (hs : d.slots[i]? = some s) {generation : UInt64}
    (hgeneration : s.generation = generation) (hcall : d.stopCall = .none) (reason : ExitReason)
    (error : String) :
    d.handleExit i generation reason error =
      let delay := (d.policy.backoff (s.ended reason error).failures).toInt
      let d := { d with slots := d.slots.set i (s.ended reason error) }
      if d.policy.allows s.restarts = false then d
      else if 0 < delay then { d with pending := d.pending ++ [⟨i, d.dueTime delay⟩] }
      else { d with control := .respawning i [] } := by
  have hquiet : (d.stopping || !d.policy.allows s.restarts) = true ↔
      d.policy.allows s.restarts = false := by
    simp [stopping, hcall]
  rw [handleExit, hs]
  dsimp only
  rw [if_neg (not_not.2 hgeneration)]
  exact if_congr hquiet rfl rfl

/-- Slot `i` is in the state `s`, and the control loop does nothing before it starts its next
generation. -/
structure Restarts (d : Dispatcher) (i : ℕ) (s : Slot) : Prop where
  slot : d.slots[i]? = some s
  control : d.control = .respawning i []
  restart : ∃ d', d.step? .respawn = some d' ∧ d'.slots[i]? = some (nextGeneration s)
  others : ∀ action d', action ≠ .respawn → d.step? action = some d' → d'.control = d.control

/-- Once its turn has come, its restart is the next thing that the control loop does. -/
theorem restarts_of_control (ho : Orderly d) (hcontrol : d.control = .respawning i [])
    (hs : d.slots[i]? = some s) : Restarts d i s where
  slot := hs
  control := hcontrol
  restart := by
    refine ⟨_, by rw [step?, hcontrol], ?_⟩
    rw [restartWorker_eq]
    change (d.slots.modify i nextGeneration)[i]? = _
    rw [modify_eq_set hs, List.getElem?_set_self (List.getElem?_eq_some_iff.1 hs).1]
  others action d' haction hstep := by
    cases hcontrols : action.controls with
    | false => exact (framed_of_step hstep).control hcontrols
    | true =>
      cases action with
      | start =>
        have hstarted : d.started = true := by
          by_contra hnot
          cases hcontrol.symm.trans (ho.unstarted (Bool.eq_false_iff.2 hnot)).1
        obtain rfl := Option.some.inj hstep
        rw [if_pos hstarted]
      | handle =>
        obtain ⟨event, rest, hwaiting, -⟩ := handle_step hstep
        cases hcontrol.symm.trans hwaiting
      | collect => cases hcontrol.symm.trans (collect_step hstep).1
      | decide =>
        obtain ⟨w, rest, hrestarting, -⟩ := decide_step hstep
        cases hcontrol.symm.trans hrestarting
      | respawn => exact absurd rfl haction
      | _ => cases hcontrols

/-- The end of the worker of slot `i` is handled in `d`, which leads to `d'` and leaves the slot as `s`,
after `n` fruitless generations in a row. -/
structure Decided (p : RestartPolicy) (d d' : Dispatcher) (i : ℕ) (s : Slot) (n : ℕ) : Prop where
  slot : d'.slots[i]? = some s
  failures : s.failures.toNat = n
  terminated : s.status = .terminated
  gone : s.phase = .absent
  refused : d'.grantsKill i = false
  /-- A slot without restarts left is not restarted. -/
  retired : p.allows s.restarts = false → d'.pending = d.pending ∧ d'.control = .waiting
  /-- A restart with a delay is noted, once, and is not taken up before its due time. This is the time
  after the delay, in nanoseconds of 64 bits, and it is not cut as long as it has room in them. -/
  delayed : p.allows s.restarts = true → 0 < p.delayAfter n → ∃ due : Int64,
    due = .ofInt (d.clock + p.delayAfter n * 1000000) ∧
    (d.clock + p.delayAfter n * 1000000 < 2 ^ 63 →
      due.toInt = d.clock + p.delayAfter n * 1000000) ∧
    d'.pending = d.pending ++ [⟨i, due⟩] ∧ d'.control = .waiting ∧
      ∀ later d'', d'.run? later = some d'' → d''.stopCall = .none → d''.clock < due.toInt →
        Awaits d'' i due s
  /-- Any other one comes next. -/
  atOnce : p.allows s.restarts = true → p.delayAfter n ≤ 0 →
    d'.pending = d.pending ∧ Restarts d' i s

/-- What is decided at the end of a worker, if the counter then stands for `n`. -/
theorem Supervised.decided (hd : Supervised p d lives) (ho : Orderly d) (hcall : d.stopCall = .none)
    (hstep : d.step? .handle = some d') (hs : d.slots[i]? = some s)
    (hlive : s.phase.isLive = false) {reason : ExitReason} {error : String} {rest : List Event}
    (hmailbox : d.mailbox = .exited i s.generation reason error :: rest) {n : ℕ}
    (hfailures : (s.ended reason error).failures = .ofNat n) (hn : n < 2 ^ 32) :
    Decided p d d' i (s.ended reason error) n := by
  obtain ⟨event, rest', hcontrol, hmailbox', heq⟩ := handle_step hstep
  obtain ⟨rfl, rfl⟩ := List.cons.inj (hmailbox.symm.trans hmailbox')
  have hcall' : d'.stopCall = .none := by
    rw [heq, (handleEvent_calls d _ rest).stopCall, hcall]
  have hd' := Supervised.step (fun _ => hd) ho hstep hcall'
  have ho' := ho.step hstep
  have hdelay : (d.policy.backoff (s.ended reason error).failures).toInt = p.delayAfter n := by
    rw [hd.policy, hfailures, RestartPolicy.delayAfter]
  have hset : (d.slots.set i (s.ended reason error))[i]? = some (s.ended reason error) :=
    List.getElem?_set_self (List.getElem?_eq_some_iff.1 hs).1
  rw [handleEvent, handleExit_of_generation_eq (d := { d with mailbox := rest }) hs rfl hcall] at heq
  dsimp only at heq
  rw [hdelay, hd.policy] at heq
  have hslot : d'.slots[i]? = some (s.ended reason error) := by
    rw [heq]
    split
    · exact hset
    · split <;> exact hset
  refine {
    slot := hslot
    failures := by rw [hfailures, UInt32.toNat_ofNat', Nat.mod_eq_of_lt hn]
    terminated := rfl
    gone := Phase.eq_absent_of_isLive hlive
    refused := by simp [grantsKill, hslot, Slot.ended]
    retired := fun hrefused => ?_
    delayed := fun hallowed hpositive => ?_
    atOnce := fun hallowed hzero => ?_ }
  · rw [if_pos (show p.allows s.restarts = false from hrefused)] at heq
    rw [heq]
    exact ⟨rfl, hcontrol⟩
  · rw [if_neg (by simpa [Slot.ended] using hallowed), if_pos hpositive] at heq
    have hpending : d'.pending = d.pending ++ [⟨i, d.dueTime (p.delayAfter n)⟩] := by
      rw [heq]
      rfl
    refine ⟨d.dueTime (p.delayAfter n), rfl, toInt_dueTime hpositive.le, hpending,
      by rw [heq]; exact hcontrol, fun later d'' hlater hcall'' hearly => ?_⟩
    refine (hd'.awaits hslot ?_).run hd' ho' hlater hcall'' hearly
    rw [hpending]
    exact List.mem_append_right _ List.mem_cons_self
  · rw [if_neg (by simpa [Slot.ended] using hallowed), if_neg (not_lt.2 hzero)] at heq
    exact ⟨by rw [heq], restarts_of_control ho' (by rw [heq]) hslot⟩

/-- **The delay of a restart counts the fruitless generations in a row**, and it is kept. -/
theorem restart_delay_counts_fruitless {generation : UInt64} {reason : ExitReason} {error : String}
    {rest : List Event} (hrun : (new c).run? actions = some d) (hcall : d.stopCall = .none)
    (hmailbox : d.mailbox = .exited i generation reason error :: rest)
    (hstep : d.step? .handle = some d')
    (hfew : (generations (observed (deeds i) (new c) actions)).length < 2 ^ 32) :
    ∃ s, d.slots[i]? = some s ∧ Decided c.policy d d' i (s.ended reason error)
      (inRow (generations (observed (deeds i) (new c) actions))) := by
  have hd := supervised_of_run hrun hcall
  -- The report is one of the latest worker of the slot.
  have hexit : generation ∈ d.exits i :=
    List.mem_filterMap.2 ⟨.exited i generation reason error,
      by rw [hmailbox]; exact List.mem_cons_self, if_pos rfl⟩
  cases hs : d.slots[i]? with
  | none =>
    rw [(hd.none i (List.getElem?_eq_none_iff.1 hs)).1] at hexit
    cases hexit
  | some s =>
    obtain rfl : generation = s.generation :=
      (hd.slot i s hs).generation_eq (a := d.account _ i) hexit
    have hcounted := counted_of_run hrun hcall hs
    rw [reports, hmailbox, List.filterMap_cons_some (Event.reason?_exited ..)] at hcounted
    obtain ⟨-, hlive, hfailures⟩ := hcounted.handle error
    exact ⟨s, rfl, hd.decided (orderly_of_reachable (reachable_of_run hrun)) hcall hstep hs hlive
      hmailbox hfailures ((inRow_le_length _).trans_lt hfew)⟩

/-- One worker, whose restarts are delayed once it fails. -/
def patient : Config := { workers := 1, policy := { initialBackoff := 100, maxBackoff := 5000 } }

/-- The first generation fails an attempt and is ended by the next one, the second one is killed, and
the third one finds no program. -/
def faltering : List Action := [
  .start, .spawn, .prepare 0, .load 0 (.ok ()), .deliver { id := 1 }, .arrive 0, .handle,
  .deliver { id := 2 }, .arrive 0, .handle, .take 0, .finish 0 (.error (.raised "no")), .take 0,
  .finish 0 (.error (.fatal "worker state corrupted")), .exit 0, .handle, .respawn,
  .prepare 0, .load 0 (.ok ()), .kill 0, .take 0, .exit 0, .handle, .respawn,
  .prepare 0, .load 0 (.error .noProgram), .exit 0]

/-- The fourth generation finds no program either. -/
def falteringAgain : List Action := faltering ++ [
  .handle, .respawn, .prepare 0, .load 0 (.error .noProgram), .exit 0]

theorem restart_delay_counts_fruitless_faltering :
    (∃ d d' s, (new patient).run? faltering = some d ∧ d.step? .handle = some d' ∧
      Decided patient.policy d d' 0 s 1) ∧
    ∃ d d' s, (new { workers := 1 }).run? falteringAgain = some d ∧ d.step? .handle = some d' ∧
      Decided {} d d' 0 s 2 ∧ d'.control = .respawning 0 [] := by
  constructor
  · have hrun : (new patient).run? faltering = some _ := rfl
    obtain ⟨s, -, hdecided⟩ := restart_delay_counts_fruitless hrun rfl rfl rfl (by decide)
    exact ⟨_, _, _, hrun, rfl, hdecided⟩
  · have hrun : (new { workers := 1 }).run? falteringAgain = some _ := rfl
    obtain ⟨s, hs, hdecided⟩ := restart_delay_counts_fruitless hrun rfl rfl rfl (by decide)
    refine ⟨_, _, _, hrun, rfl, hdecided, (hdecided.atOnce rfl ?_).2.control⟩
    decide

end Dispatcher
end ProofMiner

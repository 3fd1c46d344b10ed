/-
# When mining is turned off

A candidate travels through the mailbox, and the control loop looks at the flag of mining when it
handles the candidate. So a candidate is ignored if mining is off at that moment, whatever it was when
the candidate was delivered: turned off in between, mining ignores a candidate that was delivered
while it was on, and turned on in between, it mines one that was delivered while it was off.

To compare the two moments, a run is followed with a tag on each candidate that says whether mining
was on when its delivery began (`Tags`). The tags do not influence anything; they go the way of their
candidates (`Tags.Agree.step`).
-/

import ProofMiner.Proofs.Supervisor.Conservation

namespace ProofMiner
namespace Dispatcher

open Passage

variable {c : Config} {d d' : Dispatcher} {action : Action} {actions : List Action}

/-! ### The flag and the deliveries under way -/

/-- What a call sets mining to. -/
def Action.enable? : Action → Option Bool
  | .enable on => some on
  | _ => none

/-- The deliveries that are under way after an action. -/
def deliveringAfter (d : Dispatcher) : Action → List Candidate
  | .deliver x => if d.stopping then d.delivering else d.delivering ++ [x]
  | .arrive i => d.delivering.eraseIdx i
  | _ => d.delivering

/-- Only the calls that are meant to do so change the flag, and begin or end a delivery. -/
theorem calls_of_step (hstep : d.step? action = some d') :
    d'.enabled = action.enable?.getD d.enabled ∧ d'.delivering = d.deliveringAfter action := by
  cases hworker : action.worker? with
  | some w =>
    have hframe : d'.enabled = d.enabled ∧ d'.delivering = d.delivering := by
      rcases worker_step hworker hstep with ⟨s, s', hquiet⟩ | ⟨-, s, s', x, rest, htaking⟩
      · rw [hquiet.frame]
        exact ⟨rfl, rfl⟩
      · rw [htaking.frame]
        exact ⟨rfl, rfl⟩
    cases action with
    | prepare | load | take | finish | emit => exact hframe
    | _ => cases hworker
  | none =>
    cases action with
    | start =>
      obtain rfl := Option.some.inj hstep
      exact ⟨by split <;> rfl, by split <;> rfl⟩
    | spawn =>
      obtain ⟨-, -, rfl⟩ := spawn_step hstep
      exact ⟨rfl, rfl⟩
    | stop =>
      rcases stop_step hstep with ⟨-, rfl⟩ | ⟨-, -, -, rfl⟩ <;> exact ⟨rfl, rfl⟩
    | postStop =>
      obtain ⟨-, rfl⟩ := postStop_step hstep
      have hcalls := post_calls d .stop
      exact ⟨hcalls.enabled, hcalls.delivering⟩
    | cancelWorkers =>
      obtain ⟨-, -, rfl⟩ := cancelWorkers_step hstep
      exact ⟨rfl, rfl⟩
    | closeQueue =>
      obtain ⟨-, rfl⟩ := closeQueue_step hstep
      exact ⟨rfl, rfl⟩
    | join =>
      obtain ⟨worker, -, ⟨-, rfl⟩ | ⟨s, -, -, rfl⟩⟩ := join_step hstep <;> exact ⟨rfl, rfl⟩
    | deliver x =>
      obtain rfl := Option.some.inj hstep
      exact ⟨by split <;> rfl, by rw [deliveringAfter]; split <;> rfl⟩
    | arrive i =>
      obtain ⟨x, -, rfl⟩ := arrive_step hstep
      have hcalls := post_calls { d with delivering := d.delivering.eraseIdx i } (.candidate x)
      exact ⟨hcalls.enabled, hcalls.delivering⟩
    | enable on =>
      obtain rfl := Option.some.inj hstep
      exact ⟨rfl, rfl⟩
    | kill w =>
      obtain rfl := Option.some.inj hstep
      exact ⟨rfl, rfl⟩
    | handle =>
      obtain ⟨event, rest, -, -, rfl⟩ := handle_step hstep
      have hcalls := handleEvent_calls d event rest
      exact ⟨hcalls.enabled, hcalls.delivering⟩
    | collect =>
      obtain ⟨-, -, rfl⟩ := collect_step hstep
      exact ⟨rfl, rfl⟩
    | decide =>
      obtain ⟨worker, rest, -, rfl⟩ := decide_step hstep
      exact ⟨rfl, rfl⟩
    | respawn =>
      obtain ⟨worker, rest, -, rfl⟩ := respawn_step hstep
      exact ⟨rfl, rfl⟩
    | exit w =>
      obtain ⟨s, reason, error, -, -, rfl⟩ := exit_step hstep
      have hcalls := post_calls (d.modifySlot w fun s => { s with phase := .absent })
        (.exited w s.workerGeneration reason error)
      exact ⟨hcalls.enabled, hcalls.delivering⟩
    | wait ms =>
      obtain rfl := Option.some.inj hstep
      exact ⟨rfl, rfl⟩
    | _ => cases hworker

/-- Mining is on or off as the last call said. -/
theorem enabled_eq_last_call (hrun : d.run? actions = some d') :
    d'.enabled = (actions.filterMap Action.enable?).getLast?.getD d.enabled := by
  induction actions generalizing d with
  | nil =>
    obtain rfl := Option.some.inj hrun
    rfl
  | cons action rest ih =>
    obtain ⟨next, hnext, hrest⟩ := Option.bind_eq_some_iff.1 hrun
    rw [ih hrest, (calls_of_step hnext).1]
    cases action with
    | enable on =>
      have hcons : (Action.enable on :: rest).filterMap Action.enable? =
        on :: rest.filterMap Action.enable? := rfl
      rw [hcons, List.getLast?_cons]
      rfl
    | _ => rfl

/-! ### Tags -/

/-- The deliveries under way and the candidates in the mailbox, each with the state of mining when
its delivery began. -/
structure Tags where
  delivering : List (Candidate × Bool) := []
  waiting : List (Candidate × Bool) := []

namespace Tags

/-- The tags of deliveries under way after an action. -/
def called (t : Tags) (d : Dispatcher) : Action → List (Candidate × Bool)
  | .deliver x => if d.stopping then t.delivering else t.delivering ++ [(x, d.enabled)]
  | .arrive i => t.delivering.eraseIdx i
  | _ => t.delivering

/-- The tag that gets to the mailbox. -/
def arrived (t : Tags) : Action → List (Candidate × Bool)
  | .arrive i => t.delivering[i]?.toList
  | _ => []

/-- The tags after a step from `d` to `d'`: what arrives goes to the end of the mailbox, and from its
front go those whose candidates are settled. -/
def step (t : Tags) (d : Dispatcher) (action : Action) (d' : Dispatcher) : Tags where
  delivering := t.called d action
  waiting := (t.waiting ++ t.arrived action).drop
    ((passages d action d').filterMap settled?).length

/-- The tags are those of the candidates that are under way. -/
structure Agree (t : Tags) (d : Dispatcher) : Prop where
  delivering : t.delivering.map Prod.fst = d.delivering
  waiting : t.waiting.map Prod.fst = d.inMailbox

/-- No candidate waits in the beginning. -/
theorem agree_new (c : Config) : Agree {} (new c) := ⟨rfl, rfl⟩

/-- A tag for each candidate that arrives. -/
theorem Agree.arrived {t : Tags} (h : t.Agree d) (hstep : d.step? action = some d') :
    (t.arrived action).map Prod.fst = (passages d action d').filterMap posted? := by
  cases action with
  | arrive i =>
    obtain ⟨x, hx, -⟩ := arrive_step hstep
    rw [Tags.arrived, ← Option.toList_map, ← List.getElem?_map, h.delivering, passages, hx]
    dsimp only
    split <;> rfl
  | deliver x =>
    rw [passages]
    split <;> rfl
  | handle | take w =>
    refine (List.filterMap_eq_nil_iff.2 fun p hp => ?_).symm
    grind [passages, posted?]
  | _ => rfl

/-- **The tags stay with their candidates.** -/
theorem Agree.step {t : Tags} (h : t.Agree d) (ho : Orderly d) (hstep : d.step? action = some d') :
    (t.step d action d').Agree d' where
  delivering := by
    rw [(calls_of_step hstep).2]
    cases action with
    | deliver x =>
      dsimp only [Tags.step, called, deliveringAfter]
      split
      · exact h.delivering
      · rw [List.map_append, h.delivering]
        rfl
    | arrive i =>
      dsimp only [Tags.step, called, deliveringAfter]
      rw [← List.eraseIdx_map, h.delivering]
    | _ => exact h.delivering
  waiting := by
    rw [Tags.step, List.map_drop, List.map_append, h.arrived hstep, h.waiting,
      (exchange_of_step ho hstep).posted, List.drop_left]

end Tags

/-- The control loop handles a candidate. -/
structure Handling where
  candidate : Candidate
  /-- Mining was on when its delivery began. -/
  delivered : Bool
  before : Dispatcher
  after : Dispatcher

namespace Handling

/-- Whether the candidate is ignored goes by this state of mining: it is counted as ignored and goes
nowhere if mining is off, and it is not counted as ignored if mining is on. -/
structure DecidedBy (r : Handling) (on : Bool) : Prop where
  off : on = false → r.after.totals.ignored = r.before.totals.ignored + 1 ∧
    r.after.queue = r.before.queue ∧ r.after.slots = r.before.slots
  on : on = true → r.after.totals.ignored = r.before.totals.ignored

/-- A candidate is decided by one state of the switch only. -/
theorem DecidedBy.unique {r : Handling} {a b : Bool} (ha : r.DecidedBy a) (hb : r.DecidedBy b) :
    a = b := by
  cases a <;> cases b
  · rfl
  · have hcount := (ha.off rfl).1
    rw [hb.on rfl] at hcount
    omega
  · have hcount := (hb.off rfl).1
    rw [ha.on rfl] at hcount
    omega
  · rfl

end Handling

/-- The candidate that is handled in a step from `d` to `d'`, if it is such a step. -/
def handling? (t : Tags) (d : Dispatcher) (action : Action) (d' : Dispatcher) : Option Handling :=
  match action, d.mailbox, t.waiting with
  | .handle, .candidate x :: _, (_, on) :: _ => some ⟨x, on, d, d'⟩
  | _, _, _ => none

/-- The candidates that are handled in a run, in order. -/
def handlings (t : Tags) (d : Dispatcher) : List Action → List Handling
  | [] => []
  | action :: rest =>
    match d.step? action with
    | some d' => (handling? t d action d').toList ++ handlings (t.step d action d') d' rest
    | none => []

/-! ### What decides -/

/-- Handlings that lead from `d` to `d'`, together with steps in which no candidate is handled: it is
always the first event of the mailbox, the present state of mining decides, and all are counted. -/
structure Accounted (d : Dispatcher) (handled : List Handling) (d' : Dispatcher) : Prop where
  decided : ∀ r ∈ handled, r.DecidedBy r.before.enabled
  first : ∀ r ∈ handled, ∃ rest, r.before.mailbox = .candidate r.candidate :: rest
  ignored : d'.totals.ignored = d.totals.ignored + handled.countP fun r => !r.before.enabled
  queued : d'.totals.accepted + d'.totals.dropped =
    d.totals.accepted + d.totals.dropped + handled.countP fun r => r.before.enabled

/-- Runs are accounted for part by part. -/
theorem Accounted.append {e : Dispatcher} {r s : List Handling} (h : Accounted d r e)
    (h' : Accounted e s d') : Accounted d (r ++ s) d' where
  decided q hq := (List.mem_append.1 hq).elim (h.decided q) (h'.decided q)
  first q hq := (List.mem_append.1 hq).elim (h.first q) (h'.first q)
  ignored := by rw [h'.ignored, h.ignored, List.countP_append, Nat.add_assoc]
  queued := by rw [h'.queued, h.queued, List.countP_append, Nat.add_assoc]

/-- Where nothing is handled, nothing is counted. -/
theorem Accounted.nothing (hignored : d'.totals.ignored = d.totals.ignored)
    (haccepted : d'.totals.accepted = d.totals.accepted)
    (hdropped : d'.totals.dropped = d.totals.dropped) : Accounted d [] d' where
  decided _ hr := absurd hr List.not_mem_nil
  first _ hr := absurd hr List.not_mem_nil
  ignored := hignored
  queued := by rw [haccepted, hdropped]; rfl

/-- A candidate is counted when it is handled, and once. -/
theorem Accounted.single {x : Candidate} {rest : List Event} {on : Bool}
    (hmailbox : d.mailbox = .candidate x :: rest)
    (hdecided : Handling.DecidedBy ⟨x, on, d, d'⟩ d.enabled)
    (hqueued : d'.totals.accepted + d'.totals.dropped =
      d.totals.accepted + d.totals.dropped + d.enabled.toNat) :
    Accounted d [⟨x, on, d, d'⟩] d' where
  decided r hr := by
    obtain rfl := List.mem_singleton.1 hr
    exact hdecided
  first r hr := by
    obtain rfl := List.mem_singleton.1 hr
    exact ⟨rest, hmailbox⟩
  ignored := by
    cases henabled : d.enabled with
    | false =>
      rw [List.countP_singleton, henabled]
      exact (hdecided.off henabled).1
    | true =>
      rw [List.countP_singleton, henabled]
      exact hdecided.on henabled
  queued := by
    rw [hqueued, List.countP_singleton]
    cases d.enabled <;> rfl

/-- The control loop handles a candidate, which was delivered with mining on or off. -/
theorem Accounted.handle (ho : Orderly d) (hcontrol : d.control = .waiting) {x : Candidate}
    {rest : List Event} (hmailbox : d.mailbox = .candidate x :: rest) (on : Bool) :
    Accounted d [⟨x, on, d, d.handleEvent (.candidate x) rest⟩]
      (d.handleEvent (.candidate x) rest) := by
  have hevent : d.handleEvent (.candidate x) rest = { d with mailbox := rest }.handleCandidate x :=
    rfl
  rcases handleCandidate_cases { d with mailbox := rest } x with
    ⟨hoff, heq⟩ | ⟨hon, -, -, heq⟩ | ⟨hon, -, -, heq⟩ | ⟨-, hclosed, -⟩
  · rw [hevent, heq]
    replace hoff : d.enabled = false := hoff
    refine .single hmailbox ⟨fun _ => ⟨rfl, rfl, rfl⟩, fun hon => ?_⟩ (by rw [hoff]; rfl)
    cases hoff.symm.trans hon
  · rw [hevent, heq]
    replace hon : d.enabled = true := hon
    refine .single hmailbox ⟨fun hoff => ?_, fun _ => rfl⟩ ?_
    · cases hon.symm.trans hoff
    · rw [hon, Bool.toNat_true]
      exact Nat.add_right_comm _ _ _
  · rw [hevent, heq]
    replace hon : d.enabled = true := hon
    refine .single hmailbox ⟨fun hoff => ?_, fun _ => rfl⟩ (by rw [hon]; rfl)
    cases hon.symm.trans hoff
  · exact absurd (ho.closed hclosed) (by simp [hcontrol])

/-- A step accounts for the candidate that is handled in it, or for none. -/
theorem accounted_of_step {t : Tags} (ht : t.Agree d) (ho : Orderly d)
    (hstep : d.step? action = some d') :
    Accounted d (handling? t d action d').toList d' := by
  by_cases hhandled : action = .handle ∧ ∃ x rest, d.mailbox = .candidate x :: rest
  · obtain ⟨rfl, x, rest, hmailbox⟩ := hhandled
    obtain ⟨event, rest', hcontrol, hmailbox', rfl⟩ := handle_step hstep
    obtain ⟨rfl, rfl⟩ := List.cons.inj (hmailbox'.symm.trans hmailbox)
    have hwaiting : t.waiting.map Prod.fst = x :: rest'.filterMap Event.candidate? := by
      rw [ht.waiting, inMailbox, hmailbox]
      rfl
    obtain ⟨tag, tags, htags, -, -⟩ := List.map_eq_cons_iff.1 hwaiting
    simp only [handling?, hmailbox, htags, Option.toList_some]
    exact .handle ho hcontrol hmailbox tag.2
  · have hnone : handling? t d action d' = none := by
      unfold handling?
      split
      next x rest _ _ _ hmailbox _ => exact absurd ⟨rfl, x, rest, hmailbox⟩ hhandled
      next => rfl
    have hshown (verdict : Verdict) (hverdict : verdict ≠ .discarded) :
        (passages d action d').filterMap (judged? verdict) = [] := by
      refine List.eq_nil_iff_forall_not_mem.2 fun x hx => ?_
      obtain ⟨haction, -, rest, hmailbox⟩ := handle_of_settled_mem (mem_judged.1 hx) hverdict
      exact hhandled ⟨haction, x, rest, hmailbox⟩
    have hex := exchange_of_step ho hstep
    rw [hnone]
    refine .nothing ?_ ?_ ?_
    · rw [hex.ignored, hshown .ignored (by simp)]
      rfl
    · rw [hex.taken, hshown .accepted (by simp)]
      rfl
    · rw [hex.dropped, hshown .dropped (by simp)]
      rfl

/-- **Every handling is accounted for**, by induction on the run. -/
theorem accounted_of_run {t : Tags} (ht : t.Agree d) (ho : Orderly d)
    (hrun : d.run? actions = some d') : Accounted d (handlings t d actions) d' := by
  induction actions generalizing d t with
  | nil =>
    obtain rfl := Option.some.inj hrun
    exact .nothing rfl rfl rfl
  | cons action rest ih =>
    obtain ⟨next, hnext, hrest⟩ := Option.bind_eq_some_iff.1 hrun
    rw [handlings, hnext]
    exact (accounted_of_step ht ho hnext).append (ih (ht.step ho hnext) (ho.step hnext) hrest)

/-- **The state of mining when a candidate is handled decides** in every run whether it is ignored. So
the state that its delivery found decides if and only if, for all candidates, the two are the same. -/
theorem ignored_iff_off_when_handled (hrun : (new c).run? actions = some d) :
    Accounted (new c) (handlings {} (new c) actions) d ∧
    ((∀ r ∈ handlings {} (new c) actions, r.DecidedBy r.delivered) ↔
      ∀ r ∈ handlings {} (new c) actions, r.delivered = r.before.enabled) := by
  have haccounted := accounted_of_run (Tags.agree_new c) (orderly_new c) hrun
  refine ⟨haccounted, forall₂_congr fun r hr => ?_⟩
  have hdecided := haccounted.decided r hr
  exact ⟨fun h => h.unique hdecided, fun heq => heq ▸ hdecided⟩

/-- Mining is turned off while a candidate that was delivered before waits in the mailbox. -/
def turnedOff : List Action := [.deliver { id := 1 }, .arrive 0, .enable false, .start, .handle]

theorem ignored_iff_off_when_handled_turnedOff : ∃ d, (new single).run? turnedOff = some d ∧
    Accounted (new single) (handlings {} (new single) turnedOff) d ∧
    ((∀ r ∈ handlings {} (new single) turnedOff, r.DecidedBy r.delivered) ↔
      ∀ r ∈ handlings {} (new single) turnedOff, r.delivered = r.before.enabled) ∧
    (handlings {} (new single) turnedOff).map Handling.delivered = [true] ∧
    d.totals.ignored = 1 :=
  ⟨_, rfl, (ignored_iff_off_when_handled rfl).1, (ignored_iff_off_when_handled rfl).2, rfl, rfl⟩

/-- Mining is turned on while a candidate that was delivered before waits in the mailbox. -/
def turnedOn : List Action := [
  .enable false, .deliver { id := 1, target := 5 }, .arrive 0, .enable true, .start, .spawn, .handle,
  .prepare 0, .load 0 (.ok ()), .take 0]

/-- A candidate that was delivered with mining off is not ignored, and a worker gets it. -/
theorem delivered_off_reaches_worker :
    (∃ r ∈ handlings {} (new single) turnedOn, ¬ r.DecidedBy r.delivered) ∧
    ∃ d, (new single).run? turnedOn = some d ∧ d.totals.ignored = 0 ∧
      d.attempting? 0 = some { id := 1, target := 5 } := by
  refine ⟨⟨_, List.mem_singleton_self _, fun hdecided => ?_⟩, _, rfl, rfl, rfl⟩
  exact Nat.zero_ne_one (hdecided.off rfl).1

end Dispatcher
end ProofMiner

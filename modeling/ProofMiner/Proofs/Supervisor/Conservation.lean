/-
# No candidate is lost, doubled or overtaken

A candidate that reaches the mailbox is settled by the control loop: it is ignored, dropped, taken
into the queue, or discarded because the dispatcher stops. From the queue it is handed to a worker.
`passages` notes these events as they show from outside: a verdict is read off the counter that moved,
and what a worker was handed off the attempt that it is in.

Every step keeps the balance of the two places where candidates wait (`Balanced`): what was posted is
what was settled followed by the mailbox, and what was accepted is what was handed out followed by
the queue, both in order. So whatever workers, callers and control loop do to each other, each posted
candidate has exactly one fate, and candidates are handed out in the order in which they were accepted
(`candidates_conserved`).
-/

import Mathlib.Data.List.Perm.Basic
import ProofMiner.Proofs.Supervisor.Runs

namespace ProofMiner

/-- What the control loop makes of a candidate. -/
inductive Verdict where
  | ignored
  | dropped
  | accepted
  /-- The dispatcher stops. -/
  | discarded
  deriving DecidableEq, Repr

/-- The verdict that two readings of the totals show. -/
def Totals.verdict (before after : Totals) : Verdict :=
  if before.ignored < after.ignored then .ignored
  else if before.dropped < after.dropped then .dropped
  else if before.accepted < after.accepted then .accepted
  else .discarded

/-- Each verdict is told by the one counter that went up. -/
theorem Totals.verdict_ignored (t : Totals) :
    t.verdict { t with ignored := t.ignored + 1 } = .ignored := by simp [verdict]

theorem Totals.verdict_dropped (t : Totals) :
    t.verdict { t with dropped := t.dropped + 1 } = .dropped := by simp [verdict]

theorem Totals.verdict_accepted (t : Totals) :
    t.verdict { t with accepted := t.accepted + 1 } = .accepted := by simp [verdict]

/-- Something that happens to a candidate. -/
inductive Passage where
  /-- A call to deliver it begins. -/
  | delivered (c : Candidate)
  /-- The call finds that the dispatcher stops. -/
  | refused (c : Candidate)
  /-- It is posted to the control loop. -/
  | posted (c : Candidate)
  | settled (verdict : Verdict) (c : Candidate)
  | handed (worker : ℕ) (c : Candidate)

namespace Passage

/-- The candidate of a passage of a given sort. -/
def delivered? : Passage → Option Candidate
  | delivered c => some c
  | _ => none

def refused? : Passage → Option Candidate
  | refused c => some c
  | _ => none

def posted? : Passage → Option Candidate
  | posted c => some c
  | _ => none

def settled? : Passage → Option Candidate
  | settled _ c => some c
  | _ => none

/-- The candidate, if this is the given verdict on it. -/
def judged? (verdict : Verdict) : Passage → Option Candidate
  | settled v c => if v = verdict then some c else none
  | _ => none

def handed? : Passage → Option Candidate
  | handed _ c => some c
  | _ => none

/-- The candidate, if it is handed to the given worker. -/
def handedTo? (worker : ℕ) : Passage → Option Candidate
  | handed w c => if w = worker then some c else none
  | _ => none

/-- It happens to a candidate between its delivery and the control loop's verdict, or instead of it. -/
def isOutside : Passage → Bool
  | delivered _ | refused _ | posted _ | settled .discarded _ => true
  | settled _ _ | handed _ _ => false

/-- Passages outside the dispatcher settle nothing but what is discarded, and hand nothing over. -/
theorem judged?_of_isOutside {verdict : Verdict} (hverdict : verdict ≠ .discarded) {p : Passage}
    (h : p.isOutside = true) : p.judged? verdict = none := by
  cases p with
  | settled v c =>
    cases v with
    | discarded => exact if_neg hverdict.symm
    | _ => cases h
  | _ => rfl

theorem handed?_of_isOutside {p : Passage} (h : p.isOutside = true) : p.handed? = none := by
  cases p with
  | handed w c => cases h
  | _ => rfl

/-- A candidate is judged in this way if it was settled so. -/
theorem mem_judged {verdict : Verdict} {c : Candidate} {h : List Passage} :
    c ∈ h.filterMap (judged? verdict) ↔ settled verdict c ∈ h := by
  rw [List.mem_filterMap]
  constructor
  · rintro ⟨p, hp, hjudged⟩
    cases p with
    | settled v y =>
      obtain ⟨rfl, heq⟩ := Option.ite_none_right_eq_some.1 hjudged
      exact Option.some.inj heq ▸ hp
    | _ => cases hjudged
  · exact fun hmem => ⟨_, hmem, if_pos rfl⟩

/-- There is one verdict on each settled candidate. -/
theorem settled_perm (h : List Passage) : (h.filterMap settled?).Perm
    (h.filterMap (judged? .ignored) ++ h.filterMap (judged? .dropped) ++
      h.filterMap (judged? .accepted) ++ h.filterMap (judged? .discarded)) := by
  rw [List.perm_iff_count]
  intro x
  induction h with
  | nil => rfl
  | cons p h ih =>
    cases p with
    | settled v y =>
      cases v <;>
        simp only [settled?, judged?, List.filterMap_cons, List.count_append, List.count_cons,
          reduceIte, reduceCtorEq] at ih ⊢ <;> omega
    | _ => exact ih

end Passage

/-- The candidate of an event that brings one. -/
def Event.candidate? : Event → Option Candidate
  | .candidate c => some c
  | _ => none

/-- The candidate of an attempt that is under way. -/
def Phase.candidate? : Phase → Option Candidate
  | attempting c => some c
  | _ => none

namespace Dispatcher

open Passage

/-- The candidate that a worker is busy with. -/
def attempting? (d : Dispatcher) (worker : ℕ) : Option Candidate :=
  d.slots[worker]?.bind fun s => s.phase.candidate?

/-- What a step from `d` to `d'` shows of candidates. -/
def passages (d : Dispatcher) (action : Action) (d' : Dispatcher) : List Passage :=
  match action with
  | .deliver c => if d.stopping then [.delivered c, .refused c] else [.delivered c]
  | .arrive i =>
    match d.delivering[i]? with
    | some c => if d.control = .ended then [.posted c, .settled .discarded c] else [.posted c]
    | none => []
  | .handle =>
    match d.mailbox with
    | .candidate c :: _ => [.settled (d.totals.verdict d'.totals) c]
    | .stop :: rest => (rest.filterMap Event.candidate?).map (.settled .discarded)
    | _ => []
  | .take w => (d'.attempting? w).toList.map (.handed w)
  | _ => []

/-- The candidates in the mailbox. -/
def inMailbox (d : Dispatcher) : List Candidate := d.mailbox.filterMap Event.candidate?

variable {c : Config} {d d' : Dispatcher} {action : Action} {actions : List Action}
variable {x : Candidate} {w : ℕ}

/-! ### One step -/

/-- What a step from `d` to `d'` takes out of each place and puts into it is what it shows. -/
structure Exchange (d : Dispatcher) (shown : List Passage) (d' : Dispatcher) : Prop where
  delivered : (shown.filterMap delivered? ++ d.delivering).Perm
    (shown.filterMap refused? ++ d'.delivering ++ shown.filterMap posted?)
  posted : d.inMailbox ++ shown.filterMap posted? = shown.filterMap settled? ++ d'.inMailbox
  accepted : d.queue.items ++ shown.filterMap (judged? .accepted) =
    shown.filterMap handed? ++ d'.queue.items
  ignored : d'.totals.ignored = d.totals.ignored + (shown.filterMap (judged? .ignored)).length
  dropped : d'.totals.dropped = d.totals.dropped + (shown.filterMap (judged? .dropped)).length
  taken : d'.totals.accepted = d.totals.accepted + (shown.filterMap (judged? .accepted)).length
  attempts : d'.totals.attempts = d.totals.attempts + (shown.filterMap handed?).length
  discarded : shown.filterMap (judged? .discarded) ≠ [] → d'.control = .ended
  ended : d.control = .ended → d'.control = .ended
  depth : d.queue.size ≤ d.queue.capacity → d'.queue.size ≤ d'.queue.capacity
  capacity : d'.queue.capacity = d.queue.capacity

/-- The queue and the counts of candidates are the same in two states. -/
structure SameCounts (d d' : Dispatcher) : Prop where
  items : d'.queue.items = d.queue.items
  capacity : d'.queue.capacity = d.queue.capacity
  attempts : d'.totals.attempts = d.totals.attempts
  ignored : d'.totals.ignored = d.totals.ignored
  dropped : d'.totals.dropped = d.totals.dropped
  accepted : d'.totals.accepted = d.totals.accepted

/-- A step that changes neither the queue nor the counts of candidates. -/
theorem Exchange.outside {shown : List Passage} (hshown : ∀ p ∈ shown, p.isOutside = true)
    (hdelivered : (shown.filterMap delivered? ++ d.delivering).Perm
      (shown.filterMap refused? ++ d'.delivering ++ shown.filterMap posted?))
    (hposted : d.inMailbox ++ shown.filterMap posted? = shown.filterMap settled? ++ d'.inMailbox)
    (hdiscarded : shown.filterMap (judged? .discarded) ≠ [] → d'.control = .ended)
    (hended : d.control = .ended → d'.control = .ended) (hsame : SameCounts d d') :
    Exchange d shown d' := by
  have hjudged (verdict : Verdict) (hverdict : verdict ≠ .discarded) :
      shown.filterMap (judged? verdict) = [] :=
    List.filterMap_eq_nil_iff.2 fun p hp => judged?_of_isOutside hverdict (hshown p hp)
  have hhanded : shown.filterMap handed? = [] :=
    List.filterMap_eq_nil_iff.2 fun p hp => handed?_of_isOutside (hshown p hp)
  exact {
    delivered := hdelivered
    posted := hposted
    accepted := by simp [hjudged, hhanded, hsame.items]
    ignored := by simp [hjudged, hsame.ignored]
    dropped := by simp [hjudged, hsame.dropped]
    taken := by simp [hjudged, hsame.accepted]
    attempts := by simp [hhanded, hsame.attempts]
    discarded := hdiscarded
    ended := hended
    depth := by rw [BoundedQueue.size, BoundedQueue.size, hsame.items, hsame.capacity]; exact id
    capacity := hsame.capacity }

/-- A step that moves no candidate. -/
theorem Exchange.nothing (hitems : d'.queue.items = d.queue.items := by rfl)
    (hattempts : d'.totals.attempts = d.totals.attempts := by rfl)
    (hended : d.control = .ended → d'.control = .ended := by exact id)
    (hmailbox : d'.inMailbox = d.inMailbox := by rfl)
    (hdelivering : d'.delivering = d.delivering := by rfl)
    (hignored : d'.totals.ignored = d.totals.ignored := by rfl)
    (hdropped : d'.totals.dropped = d.totals.dropped := by rfl)
    (htaken : d'.totals.accepted = d.totals.accepted := by rfl)
    (hcapacity : d'.queue.capacity = d.queue.capacity := by rfl) : Exchange d [] d' :=
  .outside (by simp) (by simp [hdelivering]) (by simp [hmailbox]) (by simp) hended
    ⟨hitems, hcapacity, hattempts, hignored, hdropped, htaken⟩

/-- An event that brings no candidate is posted. -/
theorem Exchange.post (h : Exchange d [] d') {event : Event} (hevent : event.candidate? = none) :
    Exchange d [] (d'.post event) := by
  by_cases hended : d'.control = .ended
  · rwa [post_of_ended hended]
  · rw [post_of_ne_ended hended]
    refine { h with posted := h.posted.trans ?_, discarded := fun hne => absurd rfl hne }
    simp [inMailbox, hevent]

/-- A call to deliver begins. -/
theorem Exchange.deliver (d : Dispatcher) (x : Candidate) :
    Exchange d (if d.stopping then [.delivered x, .refused x] else [.delivered x])
      (if d.stopping then d else { d with delivering := d.delivering ++ [x] }) := by
  split_ifs
  · refine .outside (by simp [isOutside]) ?_ (List.append_nil _) (fun hne => absurd rfl hne) id
      ⟨rfl, rfl, rfl, rfl, rfl, rfl⟩
    exact .of_eq (List.append_nil _).symm
  · refine .outside (by simp [isOutside]) ?_ (List.append_nil _) (fun hne => absurd rfl hne) id
      ⟨rfl, rfl, rfl, rfl, rfl, rfl⟩
    exact (List.perm_append_singleton _ _).symm.trans (.of_eq (List.append_nil _).symm)

/-- A delivery reaches the control loop, or comes after its end. -/
theorem Exchange.arrive {i : ℕ} (ho : Orderly d) (hx : d.delivering[i]? = some x) :
    Exchange d (if d.control = .ended then [.posted x, .settled .discarded x] else [.posted x])
      ({ d with delivering := d.delivering.eraseIdx i }.post (.candidate x)) := by
  obtain ⟨hi, rfl⟩ := List.getElem?_eq_some_iff.1 hx
  have hperm : d.delivering.Perm (d.delivering.eraseIdx i ++ [d.delivering[i]]) :=
    (List.getElem_cons_eraseIdx_perm hi).symm.trans (List.perm_append_singleton _ _).symm
  unfold Dispatcher.post
  split_ifs with hended
  · refine .outside (by simp [isOutside]) hperm ?_ (fun _ => hended) id
      ⟨rfl, rfl, rfl, rfl, rfl, rfl⟩
    rw [inMailbox, inMailbox, ho.ended hended]
    rfl
  · refine .outside (by simp [isOutside]) hperm ?_ (fun hne => absurd rfl hne) id
      ⟨rfl, rfl, rfl, rfl, rfl, rfl⟩
    rw [inMailbox, inMailbox, List.filterMap_append]
    rfl

/-- The first candidate of the mailbox is settled, other than by the end of the control loop. -/
theorem Exchange.settle {verdict : Verdict} (hposted : d.inMailbox = x :: d'.inMailbox)
    (hitems : d.queue.items ++ [Passage.settled verdict x].filterMap (judged? .accepted) =
      d'.queue.items)
    (hdepth : d.queue.size ≤ d.queue.capacity → d'.queue.size ≤ d'.queue.capacity := by exact id)
    (hverdict : verdict ≠ .discarded := by simp)
    (hignored : d'.totals.ignored = d.totals.ignored +
      ([Passage.settled verdict x].filterMap (judged? .ignored)).length := by rfl)
    (hdropped : d'.totals.dropped = d.totals.dropped +
      ([Passage.settled verdict x].filterMap (judged? .dropped)).length := by rfl)
    (htaken : d'.totals.accepted = d.totals.accepted +
      ([Passage.settled verdict x].filterMap (judged? .accepted)).length := by rfl)
    (hattempts : d'.totals.attempts = d.totals.attempts := by rfl)
    (hdelivering : d'.delivering = d.delivering := by rfl)
    (hcontrol : d'.control = d.control := by rfl)
    (hcapacity : d'.queue.capacity = d.queue.capacity := by rfl) :
    Exchange d [.settled verdict x] d' where
  delivered := .of_eq (by rw [hdelivering]; exact (List.append_nil _).symm)
  posted := (List.append_nil _).trans hposted
  accepted := hitems
  ignored := hignored
  dropped := hdropped
  taken := htaken
  attempts := hattempts
  discarded hne := by simp [judged?, hverdict] at hne
  ended := by rw [hcontrol]; exact id
  depth := hdepth
  capacity := hcapacity

/-- A candidate that is handled leaves the mailbox for the place that its verdict says. -/
theorem Exchange.handleCandidate (ho : Orderly d) (hcontrol : d.control = .waiting)
    {rest : List Event} (hmailbox : d.mailbox = .candidate x :: rest) :
    Exchange d [.settled (d.totals.verdict (d.handleEvent (.candidate x) rest).totals) x]
      (d.handleEvent (.candidate x) rest) := by
  have hposted : d.inMailbox = x :: rest.filterMap Event.candidate? := by
    rw [inMailbox, hmailbox]
    rfl
  rcases handleCandidate_cases { d with mailbox := rest } x with
    ⟨-, heq⟩ | ⟨-, -, hroom, heq⟩ | ⟨-, -, -, heq⟩ | ⟨-, hclosed, -⟩
  · rw [handleEvent, heq, Totals.verdict_ignored]
    exact .settle hposted (List.append_nil _)
  · rw [handleEvent, heq, Totals.verdict_accepted]
    refine .settle hposted rfl fun _ => ?_
    rw [BoundedQueue.size, List.length_append]
    exact hroom
  · rw [handleEvent, heq, Totals.verdict_dropped]
    exact .settle hposted (List.append_nil _)
  · exact absurd (ho.closed hclosed) (by simp [hcontrol])

/-- With its end the control loop discards what is left in the mailbox. -/
theorem Exchange.handleStop {rest : List Event} (hmailbox : d.mailbox = .stop :: rest) :
    Exchange d ((rest.filterMap Event.candidate?).map (.settled .discarded))
      (d.handleEvent .stop rest) := by
  have hnone (f : Passage → Option Candidate) (hf : ∀ x, f (.settled .discarded x) = none) :
      ((rest.filterMap Event.candidate?).map (Passage.settled .discarded)).filterMap f = [] := by
    rw [List.filterMap_map, List.filterMap_eq_nil_iff]
    exact fun x _ => hf x
  have hsettled : ((rest.filterMap Event.candidate?).map (Passage.settled .discarded)).filterMap
      settled? = rest.filterMap Event.candidate? := by
    rw [List.filterMap_map]
    exact List.filterMap_some
  have hposted : d.inMailbox = rest.filterMap Event.candidate? := by
    rw [inMailbox, hmailbox]
    rfl
  refine .outside (fun p hp => ?_) ?_ ?_ (fun _ => rfl) (fun _ => rfl)
    ⟨rfl, rfl, rfl, rfl, rfl, rfl⟩
  · obtain ⟨x, -, rfl⟩ := List.mem_map.1 hp
    rfl
  · rw [hnone _ fun _ => rfl, hnone _ fun _ => rfl, hnone _ fun _ => rfl]
    exact .of_eq (List.append_nil _).symm
  · rw [hnone _ fun _ => rfl, hsettled, hposted]
    rfl

/-- The end of a worker is handled. -/
theorem Exchange.handleExit {generation : UInt64} {reason : ExitReason} {error : String}
    (hcontrol : d.control = .waiting) {rest : List Event}
    (hmailbox : d.mailbox = .exited w generation reason error :: rest) :
    Exchange d [] (d.handleEvent (.exited w generation reason error) rest) := by
  have hended : d.control ≠ .ended := by simp [hcontrol]
  have hposted : rest.filterMap Event.candidate? = d.inMailbox := by
    rw [inMailbox, hmailbox]
    rfl
  rcases handleExit_cases { d with mailbox := rest } w generation reason error with
    ⟨-, heq⟩ | ⟨s, -, -, ⟨-, heq⟩ | ⟨-, -, ⟨due, heq⟩ | heq⟩⟩ <;>
    rw [handleEvent, heq]
  · exact .nothing rfl rfl id hposted
  · exact .nothing rfl rfl id hposted
  · exact .nothing rfl rfl id hposted
  · exact .nothing rfl rfl (absurd · hended) hposted

/-- A worker that takes a step other than its last one changes no place but the queue. -/
theorem WorkerStep.places {s s' : Slot} (hstep : WorkerStep d w s s' d') :
    d'.control = d.control ∧ d'.inMailbox = d.inMailbox ∧ d'.delivering = d.delivering ∧
      d'.totals.ignored = d.totals.ignored ∧ d'.totals.dropped = d.totals.dropped ∧
      d'.totals.accepted = d.totals.accepted := by
  rw [hstep.totals, hstep.frame]
  exact ⟨rfl, rfl, rfl, rfl, rfl, rfl⟩

/-- A worker that takes nothing moves no candidate. -/
theorem QuietStep.exchange {s s' : Slot} (hstep : QuietStep d w s s' d') : Exchange d [] d' := by
  obtain ⟨hcontrol, hmailbox, hdelivering, hignored, hdropped, htaken⟩ := hstep.places
  exact .nothing (by rw [hstep.queue]) hstep.attempts (by rw [hcontrol]; exact id) hmailbox
    hdelivering hignored hdropped htaken (by rw [hstep.queue])

/-- A worker that takes a candidate takes the first one of the queue. -/
theorem TakingStep.exchange {s s' : Slot} {rest : List Candidate}
    (hstep : TakingStep d w s s' x rest d') : Exchange d [.handed w x] d' := by
  obtain ⟨hcontrol, hmailbox, hdelivering, hignored, hdropped, htaken⟩ := hstep.places
  exact {
    delivered := .of_eq (by rw [hdelivering]; exact (List.append_nil _).symm)
    posted := (List.append_nil _).trans hmailbox.symm
    accepted := by
      rw [hstep.queue, hstep.items]
      exact List.append_nil _
    ignored := hignored
    dropped := hdropped
    taken := htaken
    attempts := hstep.attempts
    discarded := fun hne => absurd rfl hne
    ended := by rw [hcontrol]; exact id
    depth := by
      rw [hstep.queue, BoundedQueue.size, BoundedQueue.size, hstep.items]
      exact Nat.le_of_succ_le
    capacity := by rw [hstep.queue] }

/-- It has none in hand afterwards. -/
theorem QuietStep.candidate?_eq_none {s s' : Slot} (hstep : QuietStep d w s s' d') :
    s'.phase.candidate? = none := by
  cases hphase : s'.phase with
  | attempting x => exact absurd hphase (hstep.phase' x)
  | _ => rfl

/-- A worker that takes nothing shows nothing of candidates. -/
theorem QuietStep.passages_eq {s s' : Slot} (hstep : QuietStep d w s s' d')
    (hworker : action.worker? = some w) : passages d action d' = [] := by
  cases action with
  | take v =>
    obtain rfl : v = w := Option.some.inj hworker
    rw [passages, attempting?, hstep.slot', Option.bind_some, hstep.candidate?_eq_none]
    rfl
  | prepare | load | finish | emit => rfl
  | _ => cases hworker

/-- **A step shows what it does to candidates.** -/
theorem exchange_of_step (ho : Orderly d) (hstep : d.step? action = some d') :
    Exchange d (passages d action d') d' := by
  cases hworker : action.worker? with
  | some w =>
    rcases worker_step hworker hstep with ⟨s, s', hquiet⟩ | ⟨rfl, s, s', x, rest, htaking⟩
    · rw [hquiet.passages_eq hworker]
      exact hquiet.exchange
    · rw [passages, attempting?, htaking.slot', Option.bind_some, htaking.phase']
      exact htaking.exchange
  | none =>
    cases action with
    | start =>
      obtain rfl := Option.some.inj hstep
      split
      · exact .nothing
      next hnot =>
        refine .nothing rfl rfl fun hend => ?_
        cases hend ▸ (ho.unstarted (Bool.eq_false_iff.2 hnot)).1
    | spawn =>
      obtain ⟨-, -, rfl⟩ := spawn_step hstep
      exact .nothing
    | stop =>
      rcases stop_step hstep with ⟨-, rfl⟩ | ⟨-, -, -, rfl⟩
      · exact .nothing
      · exact .nothing
    | postStop =>
      obtain ⟨-, rfl⟩ := postStop_step hstep
      have hposted : Exchange d [] (d.post .stop) := Exchange.post .nothing rfl
      exact { hposted with discarded := fun hne => absurd rfl hne }
    | cancelWorkers =>
      obtain ⟨-, -, rfl⟩ := cancelWorkers_step hstep
      exact .nothing
    | closeQueue =>
      obtain ⟨-, rfl⟩ := closeQueue_step hstep
      exact .nothing
    | join =>
      obtain ⟨worker, -, ⟨-, rfl⟩ | ⟨s, -, -, rfl⟩⟩ := join_step hstep
      · exact .nothing
      · exact .nothing
    | deliver x =>
      obtain rfl := Option.some.inj hstep
      exact .deliver d x
    | arrive i =>
      obtain ⟨x, hx, rfl⟩ := arrive_step hstep
      rw [passages, hx]
      exact .arrive ho hx
    | enable on =>
      obtain rfl := Option.some.inj hstep
      exact .nothing
    | kill w =>
      obtain rfl := Option.some.inj hstep
      exact .nothing
    | handle =>
      obtain ⟨event, rest, hcontrol, hmailbox, rfl⟩ := handle_step hstep
      rw [passages, hmailbox]
      cases event with
      | candidate x => exact .handleCandidate ho hcontrol hmailbox
      | exited w generation reason error => exact .handleExit hcontrol hmailbox
      | stop => exact .handleStop hmailbox
    | collect =>
      obtain ⟨hcontrol, -, rfl⟩ := collect_step hstep
      exact .nothing rfl rfl fun hend => by cases hcontrol ▸ hend
    | decide =>
      obtain ⟨worker, rest, hcontrol, rfl⟩ := decide_step hstep
      exact .nothing rfl rfl fun hend => by cases hcontrol ▸ hend
    | respawn =>
      obtain ⟨worker, rest, hcontrol, rfl⟩ := respawn_step hstep
      exact .nothing rfl rfl fun hend => by cases hcontrol ▸ hend
    | exit w =>
      obtain ⟨s, reason, error, -, -, rfl⟩ := exit_step hstep
      refine Exchange.post ?_ rfl
      exact .nothing
    | wait ms =>
      obtain rfl := Option.some.inj hstep
      exact .nothing
    | _ => cases hworker

/-! ### Who holds what -/

/-- A change of a slot that gives its worker no candidate. -/
def GivesNone (s s' : Slot) : Prop :=
  s'.phase.candidate? = s.phase.candidate? ∨ s'.phase.candidate? = none

/-- A worker that was given nothing had in hand before what it has in hand. -/
theorem attempting?_of_slots {v : ℕ} (hx : d'.attempting? v = some x)
    (hslots : ∀ s', d'.slots[v]? = some s' → ∃ s, d.slots[v]? = some s ∧ GivesNone s s') :
    d.attempting? v = some x := by
  obtain ⟨s', hs', hx'⟩ := Option.bind_eq_some_iff.1 hx
  obtain ⟨s, hs, hsame | hnone⟩ := hslots s' hs'
  · exact Option.bind_eq_some_iff.2 ⟨s, hs, hsame ▸ hx'⟩
  · cases hnone ▸ hx'

theorem attempting?_modify {v : ℕ} {f : Slot → Slot} (hx : d'.attempting? v = some x)
    (hslots : d'.slots = d.slots.modify w f) (hf : ∀ s, GivesNone s (f s)) :
    d.attempting? v = some x := by
  refine attempting?_of_slots hx fun s' hs' => ?_
  rw [hslots, List.getElem?_modify] at hs'
  obtain ⟨s, hs, rfl⟩ := Option.map_eq_some_iff.1 hs'
  refine ⟨s, hs, ?_⟩
  split
  · exact hf s
  · exact .inl rfl

theorem attempting?_set {v : ℕ} {s s' : Slot} (hx : d'.attempting? v = some x)
    (hslots : d'.slots = d.slots.set w s') (hs : d.slots[w]? = some s)
    (hgives : GivesNone s s') : d.attempting? v = some x := by
  refine attempting?_of_slots hx fun t ht => ?_
  rw [hslots, List.getElem?_set] at ht
  split at ht
  next heq =>
    obtain rfl := Option.some.inj (Option.ite_none_right_eq_some.1 ht).2
    exact ⟨s, heq ▸ hs, hgives⟩
  next => exact ⟨t, ht, .inl rfl⟩

/-- A worker comes to hold a candidate only by taking it. -/
theorem attempting?_of_step {v : ℕ} (hstep : d.step? action = some d')
    (hx : d'.attempting? v = some x) : d.attempting? v = some x ∨ action = .take v := by
  -- Where no slot changes, the claim is what is known.
  have hsame (h : d'.slots = d.slots) : d.attempting? v = some x := by
    rwa [attempting?, h] at hx
  cases hworker : action.worker? with
  | some w =>
    rcases worker_step hworker hstep with ⟨s, s', hquiet⟩ | ⟨rfl, s, s', c, rest, htaking⟩
    · exact .inl (attempting?_set hx hquiet.slots hquiet.slot (.inr hquiet.candidate?_eq_none))
    · by_cases heq : w = v
      · exact .inr (heq ▸ rfl)
      · rw [attempting?, htaking.slots, List.getElem?_set_ne heq] at hx
        exact .inl hx
  | none =>
    refine .inl ?_
    cases action with
    | start =>
      obtain rfl := Option.some.inj hstep
      exact hsame (by split <;> rfl)
    | spawn =>
      obtain ⟨-, -, rfl⟩ := spawn_step hstep
      exact attempting?_modify hx rfl fun _ => .inr rfl
    | stop =>
      rcases stop_step hstep with ⟨-, rfl⟩ | ⟨-, -, -, rfl⟩
      · exact hx
      · exact hx
    | postStop =>
      obtain ⟨-, rfl⟩ := postStop_step hstep
      exact hsame (post_slots d .stop)
    | cancelWorkers =>
      obtain ⟨-, -, rfl⟩ := cancelWorkers_step hstep
      refine attempting?_of_slots hx fun s' hs' => ?_
      rw [List.getElem?_map] at hs'
      obtain ⟨s, hs, rfl⟩ := Option.map_eq_some_iff.1 hs'
      exact ⟨s, hs, .inl rfl⟩
    | closeQueue =>
      obtain ⟨-, rfl⟩ := closeQueue_step hstep
      exact hx
    | join =>
      obtain ⟨worker, -, ⟨-, rfl⟩ | ⟨s, -, -, rfl⟩⟩ := join_step hstep
      · exact hx
      · exact attempting?_modify hx rfl fun _ => .inl rfl
    | deliver c =>
      obtain rfl := Option.some.inj hstep
      exact hsame (by split <;> rfl)
    | arrive i =>
      obtain ⟨c, -, rfl⟩ := arrive_step hstep
      exact hsame (post_slots _ _)
    | enable on =>
      obtain rfl := Option.some.inj hstep
      exact hx
    | kill w =>
      obtain rfl := Option.some.inj hstep
      refine attempting?_modify hx rfl fun s => ?_
      split <;> exact .inl rfl
    | handle =>
      obtain ⟨event, rest, -, -, rfl⟩ := handle_step hstep
      cases event with
      | candidate c =>
        rcases handleCandidate_cases { d with mailbox := rest } c with
          ⟨-, heq⟩ | ⟨-, -, -, heq⟩ | ⟨-, -, -, heq⟩ | ⟨-, -, heq⟩ <;>
        exact hsame (by rw [handleEvent, heq])
      | exited w generation reason error =>
        rcases handleExit_cases { d with mailbox := rest } w generation reason error with
          ⟨-, heq⟩ | ⟨s, hs, -, ⟨-, heq⟩ | ⟨-, -, ⟨due, heq⟩ | heq⟩⟩
        · exact hsame (by rw [handleEvent, heq])
        all_goals
          rw [handleEvent, heq] at hx
          exact attempting?_set hx rfl hs (.inl rfl)
      | stop => exact hx
    | collect =>
      obtain ⟨-, -, rfl⟩ := collect_step hstep
      exact hx
    | decide =>
      obtain ⟨worker, rest, -, rfl⟩ := decide_step hstep
      exact hx
    | respawn =>
      obtain ⟨worker, rest, -, rfl⟩ := respawn_step hstep
      exact attempting?_modify hx rfl fun _ => .inr rfl
    | exit w =>
      obtain ⟨s, reason, error, -, -, rfl⟩ := exit_step hstep
      have hslots := post_slots (d.modifySlot w fun s => { s with phase := .absent })
        (.exited w s.workerGeneration reason error)
      exact attempting?_modify hx hslots fun _ => .inr rfl
    | wait ms =>
      obtain rfl := Option.some.inj hstep
      exact hx
    | _ => cases hworker

/-- A candidate is handed to the worker that takes it, and to no other. -/
theorem eq_take_of_handed_mem (h : .handed w x ∈ passages d action d') : action = .take w := by
  cases action with
  | take v =>
    obtain ⟨y, -, heq⟩ := List.mem_map.1 h
    cases heq
    rfl
  | deliver | arrive | handle => grind [passages]
  | _ => cases h

/-- Only the control loop that handles a candidate decides on it, other than by its end. -/
theorem handle_of_settled_mem {verdict : Verdict} (h : .settled verdict x ∈ passages d action d')
    (hverdict : verdict ≠ .discarded) :
    action = .handle ∧ verdict = d.totals.verdict d'.totals ∧
      ∃ rest, d.mailbox = .candidate x :: rest := by
  cases action with
  | deliver | arrive | handle => grind [passages]
  | take v =>
    obtain ⟨y, -, heq⟩ := List.mem_map.1 h
    cases heq
  | _ => cases h

/-- A drop happens only while the queue is full, and leaves it as it is. -/
theorem drop_step (ho : Orderly d) (hdepth : d.queue.size ≤ d.queue.capacity)
    (hstep : d.step? action = some d') (hdrop : d'.totals.dropped ≠ d.totals.dropped) :
    d'.queue = d.queue ∧ d.queue.size = d.queue.capacity := by
  have hshown : (passages d action d').filterMap (judged? .dropped) ≠ [] := by
    intro hnone
    rw [(exchange_of_step ho hstep).dropped, hnone] at hdrop
    exact hdrop rfl
  obtain ⟨x, hx⟩ := List.exists_mem_of_ne_nil _ hshown
  obtain ⟨rfl, -, rest, hmailbox⟩ := handle_of_settled_mem (mem_judged.1 hx) (by simp)
  obtain ⟨event, rest', hcontrol, hmailbox', rfl⟩ := handle_step hstep
  obtain ⟨rfl, rfl⟩ := List.cons.inj (hmailbox'.symm.trans hmailbox)
  rcases handleCandidate_cases { d with mailbox := rest' } _ with
    ⟨-, heq⟩ | ⟨-, -, -, heq⟩ | ⟨-, -, hfull, heq⟩ | ⟨-, hclosed, heq⟩ <;>
    rw [handleEvent, heq] at hdrop ⊢
  · exact absurd rfl hdrop
  · exact absurd rfl hdrop
  · exact ⟨rfl, Nat.le_antisymm hdepth hfull⟩
  · exact absurd rfl hdrop

/-! ### Runs -/

/-- What is known after `h`, which is all that was shown of candidates so far. -/
structure Balanced (capacity : ℕ) (d : Dispatcher) (h : List Passage) : Prop where
  /-- What calls deliver is refused, or posted once, or still on its way. -/
  delivered : (h.filterMap delivered?).Perm
    (h.filterMap refused? ++ d.delivering ++ h.filterMap posted?)
  /-- What is posted is settled in order, and what is not settled is in the mailbox. -/
  posted : h.filterMap posted? = h.filterMap settled? ++ d.inMailbox
  /-- What is accepted is handed out in order, and what is not handed out is in the queue. -/
  accepted : h.filterMap (judged? .accepted) = h.filterMap handed? ++ d.queue.items
  ignored : d.totals.ignored = (h.filterMap (judged? .ignored)).length
  dropped : d.totals.dropped = (h.filterMap (judged? .dropped)).length
  taken : d.totals.accepted = (h.filterMap (judged? .accepted)).length
  attempts : d.totals.attempts = (h.filterMap handed?).length
  /-- Nothing is discarded before the control loop ends. -/
  discarded : h.filterMap (judged? .discarded) ≠ [] → d.control = .ended
  depth : d.queue.size ≤ d.queue.capacity
  capacity : d.queue.capacity = capacity
  /-- What a worker is busy with was handed to it, and nothing was since. -/
  held : ∀ w x, d.attempting? w = some x → (h.filterMap (handedTo? w)).getLast? = some x

/-- In the beginning there are no candidates. -/
theorem balanced_new (c : Config) : Balanced (max 1 c.queueCapacity) (new c) [] where
  delivered := .nil
  posted := rfl
  accepted := rfl
  ignored := rfl
  dropped := rfl
  taken := rfl
  attempts := rfl
  discarded h := absurd rfl h
  depth := Nat.zero_le _
  capacity := rfl
  held w x hx := by
    obtain ⟨s, hs, hphase⟩ := Option.bind_eq_some_iff.1 hx
    obtain rfl := List.eq_of_mem_replicate (List.mem_of_getElem? hs)
    cases hphase

/-- **A step keeps the balance.** -/
theorem Balanced.step {capacity : ℕ} {h : List Passage} (hbal : Balanced capacity d h)
    (ho : Orderly d) (hstep : d.step? action = some d') :
    Balanced capacity d' (h ++ passages d action d') := by
  have hex := exchange_of_step ho hstep
  constructor
  · refine List.perm_iff_count.2 fun x => ?_
    have hbefore := List.perm_iff_count.1 hbal.delivered x
    have hshown := List.perm_iff_count.1 hex.delivered x
    simp only [List.filterMap_append, List.count_append] at hbefore hshown ⊢
    omega
  · rw [List.filterMap_append, List.filterMap_append, hbal.posted, List.append_assoc, hex.posted,
      List.append_assoc]
  · rw [List.filterMap_append, List.filterMap_append, hbal.accepted, List.append_assoc,
      hex.accepted, List.append_assoc]
  · rw [List.filterMap_append, List.length_append, hex.ignored, hbal.ignored]
  · rw [List.filterMap_append, List.length_append, hex.dropped, hbal.dropped]
  · rw [List.filterMap_append, List.length_append, hex.taken, hbal.taken]
  · rw [List.filterMap_append, List.length_append, hex.attempts, hbal.attempts]
  · rw [List.filterMap_append]
    intro hne
    by_cases hshown : (passages d action d').filterMap (judged? .discarded) = []
    · rw [hshown, List.append_nil] at hne
      exact hex.ended (hbal.discarded hne)
    · exact hex.discarded hshown
  · exact hex.depth hbal.depth
  · exact hex.capacity.trans hbal.capacity
  · intro w x hx
    rw [List.filterMap_append]
    -- Only a step in which `w` takes a candidate adds to what was handed to `w`.
    by_cases htake : action = .take w
    · subst htake
      rw [passages, hx]
      simp [handedTo?]
    · have hnone : (passages d action d').filterMap (handedTo? w) = [] := by
        refine List.filterMap_eq_nil_iff.2 fun p hp => ?_
        cases p with
        | handed v y => exact if_neg fun heq : v = w => htake (heq ▸ eq_take_of_handed_mem hp)
        | _ => rfl
      rw [hnone, List.append_nil]
      exact hbal.held w x ((attempting?_of_step hstep hx).resolve_right htake)

/-- The balance after a run. -/
theorem balanced_of_run (hrun : (new c).run? actions = some d) :
    Balanced (max 1 c.queueCapacity) d (observed passages (new c) actions) := by
  have hboth := run_induction passages
    (fun d h => Orderly d ∧ Balanced (max 1 c.queueCapacity) d h)
    (fun _ _ _ _ hd hstep => ⟨hd.1.step hstep, hd.2.step hd.1 hstep⟩)
    ⟨orderly_new c, balanced_new c⟩ hrun
  exact hboth.2

/-- What becomes of candidates in a run that shows `h` of them and ends in `d`. -/
structure Conserved (c : Config) (d : Dispatcher) (h : List Passage) : Prop
    extends Balanced (max 1 c.queueCapacity) d h where
  /-- A posted candidate is still in the mailbox, or ignored, or dropped, or waiting in the queue, or
  handed to a worker, or discarded. -/
  fates : (h.filterMap posted?).Perm
    (d.inMailbox ++ h.filterMap (judged? .ignored) ++ h.filterMap (judged? .dropped) ++
      d.queue.items ++ h.filterMap handed? ++ h.filterMap (judged? .discarded))
  /-- Nothing is discarded unless the dispatcher stops. -/
  stopped : h.filterMap (judged? .discarded) ≠ [] → d.stopping = true
  /-- What was accepted was handed out for an attempt or waits. -/
  waiting : d.totals.accepted = d.totals.attempts + d.queue.size
  /-- The `k`-th candidate that is handed out is the `k`-th one that was accepted. -/
  inOrder : ∀ (k : ℕ) (x : Candidate), (h.filterMap handed?)[k]? = some x →
    (h.filterMap (judged? .accepted))[k]? = some x
  /-- A candidate is dropped only while the queue is full, and the queue stays as it is. -/
  drops : ∀ action d', d.step? action = some d' → d'.totals.dropped ≠ d.totals.dropped →
    d'.queue = d.queue ∧ d.queue.size = d.queue.capacity

/-- **No candidate is lost, doubled or overtaken**, whatever the steps of a run are. -/
theorem candidates_conserved (hrun : (new c).run? actions = some d) :
    Conserved c d (observed passages (new c) actions) := by
  have hbal := balanced_of_run hrun
  have ho := orderly_of_reachable (reachable_of_run hrun)
  refine { hbal with fates := ?_, stopped := ?_, waiting := ?_, inOrder := ?_, drops := ?_ }
  · -- What is settled is spread over the verdicts, and what is accepted over queue and workers.
    rw [hbal.posted]
    have hsettled := settled_perm (observed passages (new c) actions)
    rw [hbal.accepted] at hsettled
    refine List.perm_iff_count.2 fun x => ?_
    have hcount := List.perm_iff_count.1 hsettled x
    simp only [List.count_append] at hcount ⊢
    omega
  · intro hne
    refine decide_eq_true fun hnone => ?_
    exact (ho.serving (.inl hnone)).1 (hbal.discarded hne)
  · rw [hbal.taken, hbal.accepted, List.length_append, hbal.attempts, BoundedQueue.size]
  · intro k x hx
    rw [hbal.accepted, List.getElem?_append_left (List.getElem?_eq_some_iff.1 hx).1, hx]
  · exact fun action d' hstep hdrop => drop_step ho hbal.depth hstep hdrop

/-- One worker, and room for one candidate. -/
def single : Config := { workers := 1, queueCapacity := 1 }

/-- The second of two candidates finds the queue full, and a third one comes while the worker, which
has taken the first one, is asked to end. -/
def crowded : List Action := [
  .deliver { id := 1 }, .arrive 0, .deliver { id := 2 }, .arrive 0, .start, .spawn, .handle,
  .prepare 0, .load 0 (.ok ()), .handle, .take 0, .kill 0, .deliver { id := 3 }, .arrive 0]

theorem candidates_conserved_crowded : ∃ d, (new single).run? crowded = some d ∧
    Conserved single d (observed passages (new single) crowded) ∧
    (observed passages (new single) crowded).filterMap handed? = [{ id := 1 }] ∧
    (observed passages (new single) crowded).filterMap (judged? .dropped) = [{ id := 2 }] ∧
    d.inMailbox = [{ id := 3 }] :=
  ⟨_, rfl, candidates_conserved rfl, rfl, rfl, rfl⟩

end Dispatcher
end ProofMiner

/-
# Readers in sequence

A computation that can fail gives a value if and only if each of its parts does: the two parts of a
sequence (`bind_eq_ok_iff`, `bind_eq_error_iff`), or the readings of the items of a list
(`mapM_eq_ok_iff`). With a state, the second part goes on where the first one stopped
(`bind_run_of_ok`, `bind_run_eq_ok_iff`), and a failure of the first one leaves the state where it is
(`bind_run_of_error`). Looking at the state and computations that know of no state are the simplest
first parts (`get_bind_run`, `lift_bind_run_of_ok`, …).
-/

import Mathlib.Data.List.Forall2

namespace ProofMiner

variable {ε α β : Type}

/-- It succeeds if and only if both of them do. -/
theorem bind_eq_ok_iff {r : Except ε α} {next : α → Except ε β} {y : β} :
    r >>= next = .ok y ↔ ∃ x, r = .ok x ∧ next x = .ok y := by
  cases r with
  | error e => exact ⟨nofun, fun ⟨_, h, _⟩ => nomatch h⟩
  | ok x => exact ⟨fun h => ⟨x, rfl, h⟩, fun ⟨_, hx, h⟩ => Except.ok.inj hx ▸ h⟩

/-- It fails if and only if one of them does. -/
theorem bind_eq_error_iff {r : Except ε α} {next : α → Except ε β} {e : ε} :
    r >>= next = .error e ↔ r = .error e ∨ ∃ x, r = .ok x ∧ next x = .error e := by
  cases r with
  | error e' => exact ⟨fun h => .inl (Except.error.inj h ▸ rfl), fun h => h.elim
      (fun he => Except.error.inj he ▸ rfl) fun ⟨_, hx, _⟩ => nomatch hx⟩
  | ok x => exact ⟨fun h => .inr ⟨x, rfl, h⟩, fun h => h.elim nofun
      fun ⟨_, hx, h⟩ => Except.ok.inj hx ▸ h⟩

/-- A change of the value changes no failure, and a change of the failure no value. -/
theorem map_eq_ok_iff {r : Except ε α} {f : α → β} {y : β} :
    r.map f = .ok y ↔ ∃ x, r = .ok x ∧ f x = y := by
  cases r with
  | error e => exact ⟨nofun, fun ⟨_, h, _⟩ => nomatch h⟩
  | ok x => exact ⟨fun h => ⟨x, rfl, Except.ok.inj h⟩, fun ⟨_, hx, h⟩ => by
      rw [← h, ← Except.ok.inj hx, Except.map]⟩

theorem mapError_eq_ok_iff {ε' : Type} {r : Except ε α} {f : ε → ε'} {x : α} :
    r.mapError f = .ok x ↔ r = .ok x := by
  cases r with
  | error e => exact ⟨nofun, nofun⟩
  | ok x' => exact ⟨fun h => congrArg _ (Except.ok.inj h), fun h => congrArg _ (Except.ok.inj h)⟩

/-- A check that refuses before the rest is read. -/
theorem refuse_eq_ok_iff {c : Prop} [Decidable c] {e : ε} {next : Except ε β} {y : β} :
    (if c then (do throw e; next) else next) = .ok y ↔ ¬ c ∧ next = .ok y := by
  split_ifs with h
  · exact iff_of_false nofun fun ⟨hn, _⟩ => hn h
  · exact (and_iff_right h).symm

section States

variable {σ : Type} {m : ExceptT ε (StateM σ) α} {s s' : σ}

/-- The second part goes on where the first one stopped. -/
theorem bind_run_of_ok {x : α} (h : m.run s = (.ok x, s')) (next : α → ExceptT ε (StateM σ) β) :
    (m >>= next).run s = (next x).run s' := by
  change (m.run s >>= fun out => ExceptT.bindCont next out.1 out.2 : Id _) = _
  rw [h]
  rfl

/-- A failure of the first part is that of the sequence, and the state stays where it is. -/
theorem bind_run_of_error {e : ε} (h : m.run s = (.error e, s'))
    (next : α → ExceptT ε (StateM σ) β) : (m >>= next).run s = (.error e, s') := by
  change (m.run s >>= fun out => ExceptT.bindCont next out.1 out.2 : Id _) = _
  rw [h]
  rfl

/-- **A sequence succeeds if and only if both parts do**, the second one from where the first one stopped. -/
theorem bind_run_eq_ok_iff {next : α → ExceptT ε (StateM σ) β} {y : β} :
    (m >>= next).run s = (.ok y, s') ↔ ∃ x t, m.run s = (.ok x, t) ∧ (next x).run t = (.ok y, s') := by
  cases h : m.run s with
  | mk r t =>
    cases r with
    | error e =>
      rw [bind_run_of_error h]
      refine iff_of_false (fun heq => ?_) fun ⟨_, _, hm, _⟩ => ?_
      · cases heq
      · cases hm
    | ok x =>
      rw [bind_run_of_ok h]
      refine ⟨fun hnext => ⟨x, t, rfl, hnext⟩, ?_⟩
      rintro ⟨_, _, ⟨⟩, hnext⟩
      exact hnext

theorem pure_run_eq_ok_iff {x y : α} :
    (pure x : ExceptT ε (StateM σ) α).run s = (.ok y, s') ↔ y = x ∧ s' = s := by
  constructor
  · rintro ⟨⟩
    exact ⟨rfl, rfl⟩
  · rintro ⟨rfl, rfl⟩
    rfl

/-- A check that refuses before the rest is done. -/
theorem refuse_run_eq_ok_iff {c : Prop} [Decidable c] {e : ε} {x : α} :
    (if c then (do throw e; m) else m).run s = (.ok x, s') ↔ ¬ c ∧ m.run s = (.ok x, s') := by
  split_ifs with h
  · refine iff_of_false (fun heq => ?_) fun ⟨hn, _⟩ => hn h
    cases heq
  · exact (and_iff_right h).symm

/-- First parts that cannot fail. -/
theorem get_bind_run (next : σ → ExceptT ε (StateM σ) β) (s : σ) :
    (get >>= next).run s = (next s).run s := rfl

theorem set_bind_run (s' : σ) (next : PUnit → ExceptT ε (StateM σ) β) (s : σ) :
    (set s' >>= next).run s = (next ⟨⟩).run s' := rfl

/-- A first part that knows of no state leaves it alone, whether it succeeds or fails. -/
theorem lift_bind_run_of_ok {r : Except ε α} {x : α} (h : r = .ok x)
    (next : α → ExceptT ε (StateM σ) β) (s : σ) :
    ((liftM r : ExceptT ε (StateM σ) α) >>= next).run s = (next x).run s := by
  subst h
  exact bind_run_of_ok rfl next

theorem lift_bind_run_of_error {r : Except ε α} {e : ε} (h : r = .error e)
    (next : α → ExceptT ε (StateM σ) β) (s : σ) :
    ((liftM r : ExceptT ε (StateM σ) α) >>= next).run s = (.error e, s) := by
  subst h
  exact bind_run_of_error rfl next

end States

section Lists

variable {read : α → Except ε β} {items : List α} {xs : List β}

/-- **A list is read item by item.** -/
theorem mapM_eq_ok_iff : items.mapM read = .ok xs ↔
    List.Forall₂ (fun v x => read v = .ok x) items xs := by
  induction items generalizing xs with
  | nil =>
    rw [List.mapM_nil, List.forall₂_nil_left_iff]
    exact ⟨fun h => (Except.ok.inj h).symm, fun h => h ▸ rfl⟩
  | cons v items ih =>
    simp only [List.mapM_cons, bind_eq_ok_iff, ih, List.forall₂_cons_left_iff]
    constructor
    · rintro ⟨x, hx, ys, hys, h⟩
      exact ⟨x, ys, hx, hys, (Except.ok.inj h).symm⟩
    · rintro ⟨x, ys, hx, hys, rfl⟩
      exact ⟨x, hx, ys, hys, rfl⟩

/-- A list is read if each of its items is. -/
theorem exists_mapM_eq_ok (h : ∀ v ∈ items, ∃ x, read v = .ok x) :
    ∃ xs, items.mapM read = .ok xs := by
  simp only [mapM_eq_ok_iff]
  induction items with
  | nil => exact ⟨[], .nil⟩
  | cons v items ih =>
    obtain ⟨x, hx⟩ := h v List.mem_cons_self
    obtain ⟨xs, hxs⟩ := ih fun w hw => h w (List.mem_cons_of_mem v hw)
    exact ⟨x :: xs, .cons hx hxs⟩

/-- Items that are read back make a list that is. -/
theorem mapM_map_eq_ok {write : β → α} (h : ∀ x, read (write x) = .ok x) (xs : List β) :
    (xs.map write).mapM read = .ok xs := by
  rw [mapM_eq_ok_iff, List.forall₂_map_left_iff]
  exact List.forall₂_same.2 fun x _ => h x

end Lists
end ProofMiner

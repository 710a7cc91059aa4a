import Reckoner.Fault

/-!
# Evaluation with a trace

Evaluating an expression reports its steps. A `Run` is a finished computation: the events it
reported, in order, and its outcome. Sequencing runs appends their events; a run that fails keeps
the events up to its failure.

## Main results

* `Run.ext`: a run is its events and its outcome.
* the monad laws, as an instance of `LawfulMonad`.
-/

namespace Reckoner

/-- A step that an evaluation reports. -/
inductive Event where
  /-- A text was read as this sentence. -/
  | read (tokens : List Token)
  /-- An operator was applied to its two neighbours. -/
  | applied (equation : List Token) (result : Binary64)
  /-- An operation has no result. -/
  | failed (equation : List Token) (fault : Fault)
  /-- A bracket group was replaced by its value. -/
  | grouped (interior : List Token) (value : Binary64)
  /-- A problem is no sentence. -/
  | rejected (problem : String) (fault : Fault)
  /-- A problem is a sentence that has no value. -/
  | unevaluated (problem : String) (fault : Fault)
  /-- A problem was answered. -/
  | answered (problem answer : String)
deriving DecidableEq

/-- A computation that has ended: what it reported and how it ended. -/
structure Run (ε α : Type) where
  events : List Event
  outcome : Except ε α

namespace Run

variable {ε α β : Type}

@[ext] theorem ext {x y : Run ε α} (hevents : x.events = y.events)
    (houtcome : x.outcome = y.outcome) : x = y := by
  cases x; cases y; simp_all

/-- Ends with a value, without an event. -/
protected def pure (a : α) : Run ε α := ⟨[], .ok a⟩

/-- Ends with a failure, without an event. -/
def fail (e : ε) : Run ε α := ⟨[], .error e⟩

/-- Reports one event. -/
def report (event : Event) : Run ε Unit := ⟨[event], .ok ()⟩

/-- Runs without events. -/
def ofExcept (outcome : Except ε α) : Run ε α := ⟨[], outcome⟩

/-- One run after another. -/
protected def bind (x : Run ε α) (f : α → Run ε β) : Run ε β :=
  match x.outcome with
  | .ok a => ⟨x.events ++ (f a).events, (f a).outcome⟩
  | .error e => ⟨x.events, .error e⟩

instance : Monad (Run ε) where
  pure := Run.pure
  bind := Run.bind

/-- The same run, with one more event if it fails. -/
def reportError (event : ε → Event) (x : Run ε α) : Run ε α :=
  match x.outcome with
  | .ok _ => x
  | .error e => ⟨x.events ++ [event e], .error e⟩

/-- The same run with its outcome as a value, which never fails. -/
def settle {δ : Type} (x : Run ε α) : Run δ (Except ε α) := ⟨x.events, .ok x.outcome⟩

/-! ## Laws -/

@[simp] theorem events_pure (a : α) : (pure a : Run ε α).events = [] := rfl

@[simp] theorem outcome_pure (a : α) : (pure a : Run ε α).outcome = .ok a := rfl

@[simp] theorem events_fail (e : ε) : (fail e : Run ε α).events = [] := rfl

@[simp] theorem outcome_fail (e : ε) : (fail e : Run ε α).outcome = .error e := rfl

@[simp] theorem events_report (event : Event) : (report event : Run ε Unit).events = [event] := rfl

@[simp] theorem outcome_report (event : Event) :
    (report event : Run ε Unit).outcome = .ok () := rfl

@[simp] theorem events_ofExcept (outcome : Except ε α) : (ofExcept outcome).events = [] := rfl

@[simp] theorem outcome_ofExcept (outcome : Except ε α) :
    (ofExcept outcome).outcome = outcome := rfl

@[simp] theorem outcome_reportError (event : ε → Event) (x : Run ε α) :
    (x.reportError event).outcome = x.outcome := by
  unfold reportError
  split <;> simp_all

@[simp] theorem events_settle {δ : Type} (x : Run ε α) :
    (x.settle : Run δ (Except ε α)).events = x.events := rfl

@[simp] theorem outcome_settle {δ : Type} (x : Run ε α) :
    (x.settle : Run δ (Except ε α)).outcome = .ok x.outcome := rfl

@[simp] theorem outcome_bind (x : Run ε α) (f : α → Run ε β) :
    (x >>= f).outcome = x.outcome.bind fun a => (f a).outcome := by
  show (Run.bind x f).outcome = _
  unfold Run.bind
  cases x.outcome <;> rfl

/-- Runs in sequence end well if both do. -/
theorem outcome_bind_eq_ok {x : Run ε α} {f : α → Run ε β} {b : β} :
    (x >>= f).outcome = .ok b ↔ ∃ a, x.outcome = .ok a ∧ (f a).outcome = .ok b := by
  rw [outcome_bind]
  cases x.outcome <;> simp [Except.bind]

theorem events_bind_ok {x : Run ε α} {a : α} (h : x.outcome = .ok a) (f : α → Run ε β) :
    (x >>= f).events = x.events ++ (f a).events := by
  show (Run.bind x f).events = _
  unfold Run.bind
  rw [h]

theorem events_bind_error {x : Run ε α} {e : ε} (h : x.outcome = .error e) (f : α → Run ε β) :
    (x >>= f).events = x.events := by
  show (Run.bind x f).events = _
  unfold Run.bind
  rw [h]

/-- Runs in sequence that end well report the events of both. -/
theorem exists_of_bind_eq_ok {x : Run ε α} {f : α → Run ε β} {b : β}
    (h : (x >>= f).outcome = .ok b) :
    ∃ a, x.outcome = .ok a ∧ (f a).outcome = .ok b ∧
      (x >>= f).events = x.events ++ (f a).events := by
  obtain ⟨a, hx, hf⟩ := outcome_bind_eq_ok.1 h
  exact ⟨a, hx, hf, events_bind_ok hx f⟩

theorem events_reportError_of_ok {x : Run ε α} {a : α} (h : x.outcome = .ok a)
    (event : ε → Event) : (x.reportError event).events = x.events := by
  rw [reportError, h]

/-- Runs go on alike if they do with every value that the first one ends with. -/
theorem bind_congr {x : Run ε α} {f g : α → Run ε β}
    (h : ∀ a, x.outcome = .ok a → f a = g a) : x >>= f = x >>= g := by
  cases hx : x.outcome with
  | error e => apply Run.ext <;> simp [hx, events_bind_error hx, Except.bind]
  | ok a => apply Run.ext <;> simp [hx, events_bind_ok hx, Except.bind, h a hx]

@[simp] theorem fail_bind (e : ε) (f : α → Run ε β) : (fail e : Run ε α) >>= f = fail e := rfl

protected theorem id_map (x : Run ε α) : id <$> x = x := by
  show Run.bind x (fun a => Run.pure (id a)) = x
  unfold Run.bind Run.pure
  cases h : x.outcome <;> (apply Run.ext <;> simp [h])

protected theorem pure_bind (a : α) (f : α → Run ε β) : pure a >>= f = f a := by
  show Run.bind (Run.pure a) f = f a
  simp [Run.bind, Run.pure]

protected theorem bind_assoc {γ : Type} (x : Run ε α) (f : α → Run ε β) (g : β → Run ε γ) :
    x >>= f >>= g = x >>= fun a => f a >>= g := by
  show Run.bind (Run.bind x f) g = Run.bind x fun a => Run.bind (f a) g
  unfold Run.bind
  cases hx : x.outcome with
  | error e => simp
  | ok a => cases hf : (f a).outcome <;> simp [hf]

instance : LawfulMonad (Run ε) :=
  LawfulMonad.mk' (Run ε) Run.id_map Run.pure_bind Run.bind_assoc

end Run

end Reckoner

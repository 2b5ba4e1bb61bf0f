import Chiptune.Event

/-!
# Reports

The outcome of some work, with the events on the way to it. Events reported before a failure
stay reported.
-/

namespace Chiptune

/-- A value or the cause of a failure, and what happened on the way. -/
structure Report (α : Type) where
  outcome : Except Error α
  log : List Event

namespace Report

variable {α β : Type}

/-- Work that fails. -/
def fail (error : Error) : Report α := ⟨.error error, []⟩

/-- Work that reports nothing. -/
def ofExcept (outcome : Except Error α) : Report α := ⟨outcome, []⟩

/-- Reports an event, or fails where it cannot be put into words. -/
def tell (event : Event) : Report Unit :=
  if event.isWritable then ⟨.ok (), [event]⟩ else fail .tooManyDigits

/-- Goes on with the value of a report, if it has one. -/
def andThen (report : Report α) (next : α → Report β) : Report β :=
  match report.outcome with
  | .ok value =>
    let later := next value
    ⟨later.outcome, report.log ++ later.log⟩
  | .error error => ⟨.error error, report.log⟩

instance : Monad Report where
  pure value := ⟨.ok value, []⟩
  bind := andThen

instance : MonadExceptOf Error Report where
  throw := fail
  tryCatch report handler :=
    match report.outcome with
    | .ok _ => report
    | .error error =>
      let later := handler error
      ⟨later.outcome, report.log ++ later.log⟩

instance : MonadLift (Except Error) Report where
  monadLift := ofExcept

theorem bind_of_ok {report : Report α} {value : α} (h : report.outcome = .ok value)
    (next : α → Report β) :
    report >>= next = ⟨(next value).outcome, report.log ++ (next value).log⟩ := by
  simp only [bind, andThen, h]

theorem bind_of_error {report : Report α} {error : Error} (h : report.outcome = .error error)
    (next : α → Report β) : report >>= next = ⟨.error error, report.log⟩ := by
  simp only [bind, andThen, h]

/-- Events are reported in one order, however the work is grouped. -/
instance : LawfulMonad Report := by
  refine LawfulMonad.mk' Report (fun report => ?_) (fun _ _ => rfl) (fun report next later => ?_)
  · cases h : report.outcome with
    | ok value =>
      refine (bind_of_ok h _).trans ?_
      show (⟨.ok value, report.log ++ []⟩ : Report _) = report
      rw [List.append_nil, ← h]
    | error error =>
      refine (bind_of_error h _).trans ?_
      rw [← h]
  · cases h : report.outcome with
    | error error => rw [bind_of_error h, bind_of_error h, bind_of_error rfl]
    | ok value =>
      rw [bind_of_ok h, bind_of_ok h]
      cases hnext : (next value).outcome with
      | error error => rw [bind_of_error rfl, bind_of_error hnext]
      | ok found => rw [bind_of_ok rfl, bind_of_ok hnext, List.append_assoc]

theorem liftM_ok_bind (value : α) (next : α → Report β) :
    (liftM (Except.ok value : Except Error α) : Report α) >>= next = next value := by
  rw [bind_of_ok rfl]
  rfl

theorem outcome_bind (report : Report α) (next : α → Report β) :
    (report >>= next).outcome = report.outcome >>= fun value => (next value).outcome := by
  cases h : report.outcome with
  | ok value => rw [bind_of_ok h]; rfl
  | error error => rw [bind_of_error h]; rfl

theorem outcome_liftM (outcome : Except Error α) :
    (liftM outcome : Report α).outcome = outcome := rfl

theorem outcome_liftM_bind {work : Except Error α} {value : α} (h : work = .ok value)
    (next : α → Report β) : ((liftM work : Report α) >>= next).outcome = (next value).outcome := by
  rw [outcome_bind, outcome_liftM, h]
  rfl

theorem outcome_tell (event : Event) :
    (tell event).outcome = if event.isWritable = true then .ok () else .error .tooManyDigits := by
  unfold tell
  split <;> rfl

theorem outcome_tell_eq_ok {event : Event} {u : Unit} :
    (tell event).outcome = .ok u ↔ event.isWritable = true := by
  rw [outcome_tell]
  split <;> simp [*]

theorem outcome_tell_bind {event : Event} (h : event.isWritable = true) (next : Unit → Report β) :
    (tell event >>= next).outcome = (next ()).outcome := by
  rw [outcome_bind, outcome_tell, if_pos h]
  rfl

/-- Work in two parts succeeds exactly where both parts do. -/
theorem outcome_bind_eq_ok {report : Report α} {next : α → Report β} {result : β} :
    (report >>= next).outcome = .ok result ↔
      ∃ value, report.outcome = .ok value ∧ (next value).outcome = .ok result := by
  cases h : report.outcome with
  | ok value => simp [bind_of_ok h]
  | error error => simp [bind_of_error h]

theorem outcome_map_eq_ok {f : α → β} {report : Report α} {result : β} :
    (f <$> report).outcome = .ok result ↔ ∃ value, report.outcome = .ok value ∧ result = f value := by
  refine outcome_bind_eq_ok.trans (exists_congr fun value => and_congr_right fun _ => ?_)
  exact ⟨fun h => (Except.ok.inj h).symm, fun h => congrArg Except.ok h.symm⟩

end Report

end Chiptune

import PollKeeper.Store.Request

/-!
# Outcomes of requests

What the parts of which requests are made do to a store, one equation for each.
-/

namespace PollKeeper

namespace StoreAction

variable {α β : Type}

@[simp] theorem outcome_pure (x : α) (s : Store) : outcome (pure x) s = (.ok x, s) := rfl

@[simp] theorem outcome_get (s : Store) : outcome (get : StoreAction Store) s = (.ok s, s) := rfl

@[simp] theorem outcome_modify (f : Store → Store) (s : Store) :
    outcome (modify f : StoreAction Unit) s = (.ok (), f s) := rfl

theorem outcome_bind (a : StoreAction α) (f : α → StoreAction β) (s : Store) :
    outcome (a >>= f) s = match outcome a s with
      | (.ok x, s') => outcome (f x) s'
      | (.error e, s') => (.error e, s') := by
  simp only [outcome, ExceptT.run_bind, StateT.run_bind]
  rcases StateT.run (ExceptT.run a) s with ⟨_ | _, _⟩ <;> rfl

theorem outcome_bind_of_ok {a : StoreAction α} {f : α → StoreAction β} {s s' : Store} {x : α}
    (h : outcome a s = (.ok x, s')) : outcome (a >>= f) s = outcome (f x) s' := by
  rw [outcome_bind, h]

theorem outcome_bind_of_error {a : StoreAction α} {f : α → StoreAction β} {s s' : Store}
    {e : StoreError} (h : outcome a s = (.error e, s')) :
    outcome (a >>= f) s = (.error e, s') := by
  rw [outcome_bind, h]

theorem outcome_map (f : α → β) (a : StoreAction α) (s : Store) :
    outcome (f <$> a) s = ((outcome a s).1.map f, (outcome a s).2) := by
  simp only [outcome, ExceptT.run_map, StateT.run_map]
  rcases StateT.run (ExceptT.run a) s with ⟨_ | _, _⟩ <;> rfl

theorem outcome_look (f : Tables → Except StorageError α) (s : Store) :
    outcome (look f) s = ((s.database.read f).mapError .ofStorage, s) := by
  simp only [look, outcome_bind, outcome_get]
  cases s.database.read f <;> rfl

theorem outcome_change (f : Tables → Except StorageError (α × Tables)) (s : Store) :
    outcome (change f) s =
      ((s.database.write f).1.mapError .ofStorage,
        { s with database := (s.database.write f).2 }) := by
  simp only [change, outcome_bind, outcome_get, outcome_modify]
  rcases s.database.write f with ⟨_ | _, _⟩ <;> rfl

theorem outcome_orInvalid (r : Except PollError α) (s : Store) :
    outcome (orInvalid r) s = (r.mapError fun e => .invalid (.poll e), s) := by
  cases r <;> rfl

theorem outcome_liftExcept (r : Except StoreError α) (s : Store) :
    outcome (liftExcept r) s = (r, s) := by
  cases r <;> rfl

theorem outcome_obtain (f : Locks → Except LockFailure Handle × Locks) (s : Store) :
    outcome (obtain f) s =
      ((f s.locks).1.mapError .ofLock, { s with locks := (f s.locks).2 }) := by
  simp only [obtain, outcome_bind, outcome_get, outcome_modify]
  rcases f s.locks with ⟨_ | _, _⟩ <;> rfl

theorem outcome_thenRelease (a : StoreAction α) (h : Handle) (s : Store) :
    outcome (a.thenRelease h) s =
      ((outcome a s).1,
        { (outcome a s).2 with locks := (outcome a s).2.locks.release h }) := rfl

theorem outcome_guildOf (h : Handle) (s : Store) :
    outcome (Store.guildOf h) s =
      (if s.locks.isHeld h then .ok h.guild else .error (.fatal (.releasedHandle h.guild)), s) := by
  simp only [Store.guildOf, outcome_bind, outcome_get]
  split <;> rfl

end StoreAction
end PollKeeper

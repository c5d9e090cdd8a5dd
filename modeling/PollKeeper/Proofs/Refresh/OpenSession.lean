import PollKeeper.Proofs.Refresh.Effect
import PollKeeper.Proofs.Store.UnseenEdits

/-!
# Sessions with an open store

In a session, the notes about edits and refreshes belong to the scheduler. Here anyone may call any
operation of the store between two of its moves, those that write such notes as well.
-/

namespace PollKeeper

open Time

/-- An event of a session, or any operation of the store. -/
inductive OpenEvent where
  | session (e : SessionEvent)
  | store (e : StoreEvent)

namespace Session

variable [ZoneClocks] {w : Session}

def reactOpen (w : Session) : OpenEvent → Session
  | .session e => w.react e
  | .store e => { w with service.store := (w.service.store.react e).2 }

def afterOpen (w : Session) (events : List OpenEvent) : Session := events.foldl reactOpen w

theorem tables_store (h : w.Healthy) (e : StoreEvent) :
    (w.reactOpen (.store e)).tables = (w.service.store.direct.react e).2.tables :=
  (Store.leaves_react h.coherent e).2.2

private theorem Healthy.store (h : w.Healthy) (e : StoreEvent) : (w.reactOpen (.store e)).Healthy := by
  have hcoherent := (Store.leaves_react h.coherent e).1
  cases he : e.isClients with
  | true => exact (effect_client h e he).healthy h
  | false =>
    refine ⟨hcoherent, ?_, h.sound⟩
    obtain ⟨seen, noted, hpolls⟩ := w.service.store.direct.notes_react he
    have hnotes := w.tables.becomes_notes seen noted
    rw [tables_store h e, hpolls]
    exact hnotes.distinct h.distinct

theorem Healthy.reactOpen (h : w.Healthy) (e : OpenEvent) : (w.reactOpen e).Healthy := by
  cases e with
  | session e => exact h.react e
  | store e => exact h.store e

theorem Healthy.afterOpen (h : w.Healthy) (events : List OpenEvent) : (w.afterOpen events).Healthy := by
  induction events generalizing w with
  | nil => exact h
  | cons e rest ih => exact ih (h.reactOpen e)

end Session
end PollKeeper

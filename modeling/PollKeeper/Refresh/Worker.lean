/-!
# The worker

The task that ticks and sweeps in the background, as far as starting and stopping it goes. A
request to stop reaches a task that waits for its next timer at once; otherwise it is kept, and the
next task that comes to wait takes it.
-/

namespace PollKeeper

inductive Activity where
  | waiting
  | working
  | ended
  deriving DecidableEq

structure Worker where
  task : Option Activity
  /-- A request to stop that no task has taken. -/
  stopPending : Bool
  deriving DecidableEq

namespace Worker

def idle : Worker := ⟨none, false⟩

/-- A waiting task takes a request to stop. -/
def heed (w : Worker) : Worker :=
  if w.task = some .waiting ∧ w.stopPending then ⟨some .ended, false⟩ else w

def start (w : Worker) : Worker :=
  if w.task.isSome then w else { w with task := some .waiting }.heed

def begin (w : Worker) : Worker :=
  if w.task = some .waiting then { w with task := some .working } else w

def finish (w : Worker) : Worker :=
  if w.task = some .working then { w with task := some .waiting }.heed else w

def crash (w : Worker) : Worker :=
  if w.task = some .working then { w with task := some .ended } else w

def requestStop (w : Worker) : Worker := { w with stopPending := true }.heed

/-- Drops the task. One that still works is aborted. -/
def dismiss (w : Worker) : Worker := { w with task := none }

/-- Stops the worker. A task that ends its work in time does so between the two steps. -/
def stop (w : Worker) : Worker := w.requestStop.dismiss

/-- Whether there is a task that goes on. -/
def isLive (w : Worker) : Bool := w.task = some .waiting || w.task = some .working

end Worker

end PollKeeper

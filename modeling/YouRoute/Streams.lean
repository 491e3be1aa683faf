import Mathlib.Tactic.SplitIfs

/-!
# The life of a stream

A stream is started and stopped again and again. After an error the next start
waits for a while, and a stream that is open may be marked idle, so that it stops
by itself unless something is written before long.
-/

namespace YouRoute

inductive StreamState
  | initial
  | starting
  | open
  | error
  | backoff
  deriving DecidableEq, Repr

/-- A stream, and whether it is about to stop for being idle. -/
structure Stream where
  state : StreamState
  idle : Bool
  deriving DecidableEq, Repr

namespace Stream

/-- A stream that is not started yet. -/
def stopped : Stream := ⟨.initial, false⟩

def isOpen (s : Stream) : Bool := s.state == .open

def isStarted (s : Stream) : Bool := s.state == .starting || s.state == .backoff || s.isOpen

/-- A stream that is started must not be started again. -/
def start (s : Stream) : Option Stream :=
  match s.state with
  | .error => some { s with state := .backoff }
  | .initial => some { s with state := .starting }
  | _ => none

def onStreamStart (s : Stream) : Stream := { s with state := .open }

/-- The wait after an error is over. -/
def backoffElapsed (s : Stream) : Option Stream :=
  if s.state = .backoff then { s with state := .initial }.start else none

def inhibitBackoff (s : Stream) : Option Stream :=
  if s.isStarted then none else some { s with state := .initial }

def markIdle (s : Stream) : Stream := if s.isOpen then { s with idle := true } else s

/-- Only an open stream is written to, and it is not idle then. -/
def write (s : Stream) : Option Stream :=
  if s.isOpen then some { s with idle := false } else none

/-- What is left of a stream that is closed. -/
def closed (ok : Bool) : Stream := ⟨if ok then .initial else .error, false⟩

/-- The stream once it has been started, if it was not already. -/
def started (s : Stream) : Stream :=
  match s.state with
  | .error => { s with state := .backoff }
  | .initial => { s with state := .starting }
  | _ => s

theorem isStarted_of_isOpen {s : Stream} (h : s.isOpen = true) : s.isStarted = true := by
  rw [isStarted, h, Bool.or_true]

@[simp] theorem isStarted_started (s : Stream) : s.started.isStarted = true := by
  obtain ⟨state, idle⟩ := s
  cases state <;> rfl

@[simp] theorem isOpen_started (s : Stream) : s.started.isOpen = s.isOpen := by
  obtain ⟨state, idle⟩ := s
  cases state <;> rfl

@[simp] theorem idle_started (s : Stream) : s.started.idle = s.idle := by
  obtain ⟨state, idle⟩ := s
  cases state <;> rfl

theorem started_of_isStarted {s : Stream} (h : s.isStarted = true) : s.started = s := by
  obtain ⟨state, idle⟩ := s
  cases state <;> first | rfl | cases h

theorem start_of_not_isStarted {s : Stream} (h : s.isStarted = false) :
    s.start = some s.started := by
  obtain ⟨state, idle⟩ := s
  cases state <;> first | rfl | cases h

theorem isStarted_closed (ok : Bool) : (closed ok).isStarted = false := by cases ok <;> rfl

theorem isOpen_closed (ok : Bool) : (closed ok).isOpen = false := by cases ok <;> rfl

@[simp] theorem isOpen_markIdle (s : Stream) : s.markIdle.isOpen = s.isOpen := by
  unfold markIdle
  split_ifs <;> rfl

theorem markIdle_of_not_isOpen {s : Stream} (h : s.isOpen = false) : s.markIdle = s :=
  if_neg (ne_true_of_eq_false h)

/-- What a stream that is not idle is written to stays as it is. -/
theorem write_of_isOpen {s : Stream} (h : s.isOpen = true) (hidle : s.idle = false) :
    s.write = some s := by
  obtain ⟨state, idle⟩ := s
  cases hidle
  exact if_pos h

end Stream

end YouRoute

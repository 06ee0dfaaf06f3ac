import Rechnernetze.Http.HttpServer

/-!
# The threads of `http_server`

`main`, the listener thread and the handler threads, as a step function on what they share:
the list of threads and the flag, both guarded by a mutex. What a thread does while it holds
the mutex is one step, as is every call that waits. What a handler thread does with its
request is given by the environment: only the way it ends matters here.
-/

namespace Rechnernetze.Http

namespace HandlerThreads

/-- `std::thread::id`. The system may use it again when the thread has ended and is joined or
detached. -/
abbrev ThreadId := ℕ

/-- A `std::thread`: the number of the handler thread it represents, if it is joinable. -/
abbrev Thread := Option ℕ

/-- Where a handler thread is. -/
inductive Stage where
  /-- With its request, which need not come to an end: `recv` has no timeout. -/
  | handling
  /-- Before the lines that remove the thread from the list. -/
  | responded
  /-- Past these lines, or on the way out by the bad-request return or an exception. -/
  | leaving
  | ended
deriving DecidableEq

structure Handler where
  id : ThreadId
  stage : Stage
deriving DecidableEq

inductive Listener where
  /-- In `accept_next_connection`. -/
  | accepting
  /-- With a connection, before the mutex. -/
  | accepted
  | ended
deriving DecidableEq

inductive Main where
  /-- Until a `q` is read. -/
  | serving
  /-- After `listener.shutdown()`. -/
  | listenerShutDown
  /-- After `listener_thread.join()`. -/
  | listenerJoined
  /-- In the join loop, before the entry at `i`. -/
  | joining (i : ℕ)
  /-- Out of the join loop. -/
  | joined
  | returned
deriving DecidableEq

/-- What the threads do to each other's objects. -/
inductive Event where
  /-- The handler thread `n` has sent its response. -/
  | sent (n : ℕ)
  /-- The handler thread `n` has detached an entry of the list. -/
  | detached (n : ℕ) (entry : Thread)
  /-- `main` has joined the handler thread `n`. -/
  | joined (n : ℕ)
  /-- An object of the list has been destroyed. -/
  | destroyed (entry : Thread)
deriving DecidableEq

structure State where
  main : Main
  /-- The socket takes connections. -/
  listening : Bool
  listener : Listener
  removeHandlerThreadsOnCompletion : Bool
  runningHandlerThreads : List Thread
  /-- All handler threads that have been started, by their numbers. -/
  handlers : List Handler
  /-- What has happened, the latest first. -/
  log : List Event
deriving DecidableEq

def initial : State where
  main := .serving
  listening := true
  listener := .accepting
  removeHandlerThreadsOnCompletion := true
  runningHandlerThreads := []
  handlers := []
  log := []

namespace State

/-- Where the handler thread `n` is, if it has been started. -/
def stage? (s : State) (n : ℕ) : Option Stage := s.handlers[n]?.map Handler.stage

def id? (s : State) (n : ℕ) : Option ThreadId := s.handlers[n]?.map Handler.id

/-- `std::thread::get_id`; the default id is `none`. -/
def getId (s : State) (t : Thread) : Option ThreadId := t.bind s.id?

/-- The id of the handler thread `n` is in use. -/
def InUse (s : State) (n : ℕ) : Prop :=
  s.stage? n ≠ some .ended ∨ some n ∈ s.runningHandlerThreads

instance (s : State) (n : ℕ) : Decidable (s.InUse n) := by unfold InUse; infer_instance

/-- No thread uses the id. -/
def Fresh (s : State) (id : ThreadId) : Prop :=
  ∀ n < s.handlers.length, s.InUse n → s.id? n ≠ some id

instance (s : State) (id : ThreadId) : Decidable (s.Fresh id) := by unfold Fresh; infer_instance

def setStage (s : State) (n : ℕ) (stage : Stage) : State :=
  { s with handlers := s.handlers.modify n fun h => { h with stage := stage } }

def record (s : State) (event : Event) : State := { s with log := event :: s.log }

/-- `remove_handler_thread`, called by the handler thread `n`. -/
def removeHandlerThread (s : State) (n : ℕ) (id : ThreadId) : State :=
  match s.runningHandlerThreads.find? fun t => s.getId t = some id with
  | none => s
  | some t =>
    -- a detached object represents no thread when it is destroyed
    { s with
      runningHandlerThreads := s.runningHandlerThreads.eraseP fun t => s.getId t = some id
      log := .destroyed none :: .detached n t :: s.log }

end State

/-- What takes the next step. -/
inductive Action where
  | main
  /-- `accept` returns, with a connection or an error. -/
  | accept (ok : Bool)
  /-- `ListenerClosedException`. -/
  | close
  /-- `emplace_back`: the new thread gets the id. -/
  | start (id : ThreadId)
  /-- The handler thread `n` has handled its request. -/
  | handle (n : ℕ) (ending : Ending)
  /-- The handler thread `n` comes to the end of `handle_incoming_request`. -/
  | complete (n : ℕ)
  | finish (n : ℕ)
deriving DecidableEq

/-- The next step of `main`; none while it waits for a thread. -/
def mainStep (s : State) : Option State :=
  match s.main with
  | .serving => some { s with main := .listenerShutDown, listening := false }
  | .listenerShutDown =>
    if s.listener = .ended then some { s with main := .listenerJoined } else none
  | .listenerJoined =>
    some { s with main := .joining 0, removeHandlerThreadsOnCompletion := false }
  | .joining i =>
    match s.runningHandlerThreads[i]? with
    | none => some { s with main := .joined }
    | some none => some { s with main := .joining (i + 1) }
    | some (some n) =>
      if s.stage? n = some .ended then
        some { s with
          main := .joining (i + 1)
          runningHandlerThreads := s.runningHandlerThreads.set i none
          log := .joined n :: s.log }
      else none
  | .joined =>
    -- the list is a global object
    some { s with
      main := .returned
      runningHandlerThreads := []
      log := s.runningHandlerThreads.map .destroyed ++ s.log }
  | .returned => none

/-- How the handler thread `n` goes on after its request. An exception is only logged. -/
def State.handled (s : State) (n : ℕ) : Ending → Option State
  | .completed => some ((s.setStage n .responded).record (.sent n))
  | .refused => some ((s.setStage n .leaving).record (.sent n))
  | .failed .exception => some (s.setStage n .leaving)
  | .failed .blocked | .undefined => none

def step (s : State) : Action → Option State
  | .main => mainStep s
  | .accept ok =>
    if s.listener = .accepting then some (if ok then { s with listener := .accepted } else s)
    else none
  | .close =>
    if s.listener = .accepting ∧ s.listening = false then some { s with listener := .ended }
    else none
  | .start id =>
    if s.listener = .accepted ∧ s.Fresh id then
      some { s with
        listener := .accepting
        runningHandlerThreads := s.runningHandlerThreads ++ [some s.handlers.length]
        handlers := s.handlers ++ [⟨id, .handling⟩] }
    else none
  | .handle n ending => if s.stage? n = some .handling then s.handled n ending else none
  | .complete n =>
    s.handlers[n]?.bind fun h =>
      if h.stage = .responded then
        some ((if s.removeHandlerThreadsOnCompletion then s.removeHandlerThread n h.id
          else s).setStage n .leaving)
      else none
  | .finish n => if s.stage? n = some .leaving then some (s.setStage n .ended) else none

end HandlerThreads

end Rechnernetze.Http

import FeederNet.Foundation.CString
import FeederNet.Foundation.TransitionSystem
import Mathlib.Logic.Function.Basic

/-! # AsyncLogger

The threads that call `log`, the thread in `LoggerThread` and the destructor, over a pool
and a queue that are an atomic free list and an atomic queue of bounded length.
-/

namespace FeederNet.AsyncLogger

structure Config where
  poolMsgCount : Nat
  queueCapacity : Nat
  logBufferSize : Nat

/-- A message in its buffer, up to its `len`, with the thread and the number of its
message that it stands for. -/
structure LogMsg (Thread : Type u) where
  thread : Thread
  number : Nat
  buffer : Nat
  text : List UInt8
  deriving DecidableEq, Repr

inductive Call (Thread : Type u)
  | idle
  /-- Before `snprintf`. -/
  | formatting (buffer : Nat)
  /-- `snprintf` failed. -/
  | failed (buffer : Nat)
  | enqueueing (msg : LogMsg Thread)
  | returning (msg : LogMsg Thread)
  deriving DecidableEq, Repr

inductive Worker (Thread : Type u)
  /-- Before the test of `runFlag_`. -/
  | testing
  | dequeuing
  | writing (msg : LogMsg Thread)
  | deallocating (msg : LogMsg Thread)
  | ended
  deriving DecidableEq, Repr

inductive Destructor
  | waiting
  | joining
  | returned
  deriving DecidableEq, Repr

/-- `numbers` counts the messages that each thread has enqueued, `written` are the lines
with the time of their stamp, `accepted` the messages whose `log` has returned, and
`before` those of them from before the destructor began. -/
structure State (Thread : Type u) where
  runFlag : Bool
  pool : List Nat
  queue : List (LogMsg Thread)
  call : Thread → Call Thread
  worker : Worker Thread
  destructor : Destructor
  numbers : Thread → Nat
  written : List (Nat × LogMsg Thread)
  accepted : List (LogMsg Thread)
  before : List (LogMsg Thread)

inductive CallEvent
  | allocate (buffer : Nat)
  /-- The pool is exhausted, and `log` throws. -/
  | exhausted
  /-- What `snprintf` would print with room enough. -/
  | format (text : List UInt8)
  | formatFailed
  /-- The buffer goes back, and `log` throws. -/
  | deallocate
  | enqueue
  | finish
  deriving DecidableEq, Repr

inductive Event (Thread : Type u)
  | call (thread : Thread) (event : CallEvent)
  | test
  | dequeue
  | write (now : Nat)
  | deallocate
  /-- `runFlag_ = false`. -/
  | destroy
  | join
  deriving DecidableEq, Repr

namespace State

variable {Thread : Type u}

def line (now : Nat) (msg : LogMsg Thread) : List UInt8 :=
  [91] ++ CString.decimal now ++ [93, 32, 124, 32] ++ msg.text

def outStream (state : State Thread) : List UInt8 :=
  state.written.flatMap fun entry => line entry.1 entry.2

def initial (config : Config) : State Thread where
  runFlag := true
  pool := List.range config.poolMsgCount
  queue := []
  call _ := .idle
  worker := .testing
  destructor := .waiting
  numbers _ := 0
  written := []
  accepted := []
  before := []

variable [DecidableEq Thread]

def goto (state : State Thread) (thread : Thread) (call : Call Thread) : State Thread :=
  { state with call := Function.update state.call thread call }

end State

section System

variable {Thread : Type u} [DecidableEq Thread]

/-- `log`. What `enqueue` returns is not looked at. -/
def callStep (config : Config) (state : State Thread) (thread : Thread) :
    CallEvent → Option (State Thread)
  | .allocate buffer =>
      match state.call thread with
      | .idle =>
          if buffer ∈ state.pool then
            some ({ state with pool := state.pool.erase buffer }.goto thread
              (.formatting buffer))
          else none
      | _ => none
  | .exhausted =>
      match state.call thread with
      | .idle => if state.pool = [] then some state else none
      | _ => none
  | .format text =>
      match state.call thread with
      | .formatting buffer =>
          some (state.goto thread (.enqueueing {
            thread := thread
            number := state.numbers thread
            buffer := buffer
            text := text.take (config.logBufferSize - 1) }))
      | _ => none
  | .formatFailed =>
      match state.call thread with
      | .formatting buffer => some (state.goto thread (.failed buffer))
      | _ => none
  | .deallocate =>
      match state.call thread with
      | .failed buffer =>
          some ({ state with pool := buffer :: state.pool }.goto thread .idle)
      | _ => none
  | .enqueue =>
      match state.call thread with
      | .enqueueing msg =>
          some ({ state with
            queue :=
              if state.queue.length < config.queueCapacity then state.queue ++ [msg]
              else state.queue
            numbers := Function.update state.numbers thread
              (state.numbers thread + 1) }.goto thread (.returning msg))
      | _ => none
  | .finish =>
      match state.call thread with
      | .returning msg =>
          some ({ state with accepted := state.accepted ++ [msg] }.goto thread .idle)
      | _ => none

/-- There is no step after the destructor has returned. -/
def step (config : Config) (state : State Thread) :
    Event Thread → Option (State Thread)
  | .call thread event =>
      if state.destructor = .returned then none else callStep config state thread event
  | .test =>
      match state.worker with
      | .testing =>
          some { state with worker := if state.runFlag then .dequeuing else .ended }
      | _ => none
  | .dequeue =>
      match state.worker, state.queue with
      | .dequeuing, [] => some { state with worker := .testing }
      | .dequeuing, msg :: queue =>
          some { state with
            queue := queue
            worker := .writing msg }
      | _, _ => none
  | .write now =>
      match state.worker with
      | .writing msg =>
          some { state with
            written := state.written ++ [(now, msg)]
            worker := .deallocating msg }
      | _ => none
  | .deallocate =>
      match state.worker with
      | .deallocating msg =>
          some { state with
            pool := msg.buffer :: state.pool
            worker := .testing }
      | _ => none
  | .destroy =>
      match state.destructor with
      | .waiting =>
          some { state with
            runFlag := false
            before := state.accepted
            destructor := .joining }
      | _ => none
  | .join =>
      match state.destructor, state.worker with
      | .joining, .ended => some { state with destructor := .returned }
      | _, _ => none

@[reducible] def system (config : Config) : TransitionSystem (State Thread) (Event Thread) :=
  .ofStep (.initial config) (step config)

end System

end FeederNet.AsyncLogger

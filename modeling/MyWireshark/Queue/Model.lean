import MyWireshark.Lib.Monitor

/-! PacketQueue of packet_queue.cpp as a monitor, and what its critical sections keep. -/
namespace MyWireshark.Queue
open Transition Monitor

structure CapturedFrame where
  data : List UInt8
  tsSeconds : Nat
  tsMicroseconds : Nat
  deriving DecidableEq

/-- The members of PacketQueue under the mutex. -/
structure PacketQueue where
  queue : List CapturedFrame
  maxSize : Nat
  closed : Bool
  deriving DecidableEq

inductive Cond where
  | notEmpty | notFull
  deriving DecidableEq

/-- The calls. The frame of a push is put together before the mutex is taken. -/
inductive Op where
  | push (frame : CapturedFrame)
  | pop
  | close
  deriving DecidableEq

/-- What a call came to: whether a push put its frame in (the function itself returns
nothing), and the frame of a pop, `none` for false. -/
inductive Result where
  | pushed (queued : Bool)
  | popped (out : Option CapturedFrame)
  | closed
  deriving DecidableEq

namespace PacketQueue

def push (q : PacketQueue) (frame : CapturedFrame) : Section PacketQueue Cond Result :=
  if q.queue.length < q.maxSize ∨ q.closed = true then
    if q.closed then .done q [] (.pushed false)
    else .done { q with queue := q.queue ++ [frame] } [.one .notEmpty] (.pushed true)
  else .wait .notFull

def pop (q : PacketQueue) : Section PacketQueue Cond Result :=
  if q.queue ≠ [] ∨ q.closed = true then
    match q.queue with
    | [] => .done q [] (.popped none)
    | frame :: rest => .done { q with queue := rest } [.one .notFull] (.popped (some frame))
  else .wait .notEmpty

def close (q : PacketQueue) : Section PacketQueue Cond Result :=
  .done { q with closed := true } [.all .notEmpty, .all .notFull] .closed

end PacketQueue

def enter : Op → PacketQueue → Section PacketQueue Cond Result
  | .push frame, q => q.push frame
  | .pop, q => q.pop
  | .close, q => q.close

def emptyQueue (maxSize : Nat) : PacketQueue := ⟨[], maxSize, false⟩

def queueSystem (ι : Type) [DecidableEq ι] (maxSize : Nat) :
    System (State ι Op PacketQueue Cond Result) :=
  system enter (emptyQueue maxSize)

section
variable {ι : Type}

/-- The frames put in, in the order of the critical sections. -/
def enqueued (log : List (ι × Op × Result)) : List CapturedFrame :=
  log.filterMap fun e =>
    match e.2 with
    | (.push frame, .pushed true) => some frame
    | _ => none

def handedOut (log : List (ι × Op × Result)) : List CapturedFrame :=
  log.filterMap fun e =>
    match e.2 with
    | (.pop, .popped out) => out
    | _ => none

end

inductive Does (q : PacketQueue) : Op → PacketQueue → List (Wake Cond) → Result → Prop where
  | refuse {frame : CapturedFrame} (hclosed : q.closed = true) :
    Does q (.push frame) q [] (.pushed false)
  | enqueue {frame : CapturedFrame} (hopen : q.closed = false)
    (hroom : q.queue.length < q.maxSize) :
    Does q (.push frame) { q with queue := q.queue ++ [frame] } [.one .notEmpty] (.pushed true)
  | drained (hempty : q.queue = []) (hclosed : q.closed = true) : Does q .pop q [] (.popped none)
  | dequeue {frame : CapturedFrame} {rest : List CapturedFrame} (hqueue : q.queue = frame :: rest) :
    Does q .pop { q with queue := rest } [.one .notFull] (.popped (some frame))
  | close : Does q .close { q with closed := true } [.all .notEmpty, .all .notFull] .closed

theorem does_of_enter {op : Op} {q q' : PacketQueue} {wakes : List (Wake Cond)} {result : Result}
    (h : enter op q = .done q' wakes result) : Does q op q' wakes result := by
  cases op with
  | push frame =>
    rw [enter, PacketQueue.push] at h
    by_cases hclosed : q.closed = true
    · rw [if_pos (Or.inr hclosed), if_pos hclosed] at h
      cases h
      exact .refuse hclosed
    · by_cases hroom : q.queue.length < q.maxSize
      · rw [if_pos (Or.inl hroom), if_neg hclosed] at h
        cases h
        exact .enqueue (Bool.eq_false_iff.mpr hclosed) hroom
      · rw [if_neg (not_or.mpr ⟨hroom, hclosed⟩)] at h
        cases h
  | pop =>
    rw [enter, PacketQueue.pop] at h
    cases hqueue : q.queue with
    | nil =>
      by_cases hclosed : q.closed = true
      · rw [if_pos (Or.inr hclosed), hqueue] at h
        cases h
        exact .drained hqueue hclosed
      · rw [if_neg (not_or.mpr ⟨not_not.mpr hqueue, hclosed⟩)] at h
        cases h
    | cons frame rest =>
      rw [hqueue, if_pos (Or.inl (List.cons_ne_nil frame rest))] at h
      cases h
      exact .dequeue hqueue
  | close =>
    cases h
    exact .close

inductive Waits (q : PacketQueue) : Op → Cond → Prop where
  | full {frame : CapturedFrame} (hfull : q.maxSize ≤ q.queue.length) (hopen : q.closed = false) :
    Waits q (.push frame) .notFull
  | empty (hempty : q.queue = []) (hopen : q.closed = false) : Waits q .pop .notEmpty

theorem waits_of_enter {op : Op} {q : PacketQueue} {c : Cond} (h : enter op q = .wait c) :
    Waits q op c := by
  cases op with
  | push frame =>
    rw [enter, PacketQueue.push] at h
    by_cases hgo : q.queue.length < q.maxSize ∨ q.closed = true
    · rw [if_pos hgo] at h
      split at h <;> cases h
    · rw [if_neg hgo] at h
      cases h
      obtain ⟨hroom, hopen⟩ := not_or.mp hgo
      exact .full (Nat.not_lt.mp hroom) (Bool.eq_false_iff.mpr hopen)
  | pop =>
    rw [enter, PacketQueue.pop] at h
    by_cases hgo : q.queue ≠ [] ∨ q.closed = true
    · rw [if_pos hgo] at h
      split at h <;> cases h
    · rw [if_neg hgo] at h
      cases h
      obtain ⟨hempty, hopen⟩ := not_or.mp hgo
      exact .empty (not_not.mp hempty) (Bool.eq_false_iff.mpr hopen)
  | close => cases h

end MyWireshark.Queue

/-!
# Submission and completion queues

A device takes operations from a submission queue, carries them out in an order of its
own, and appends the completion of each to a completion queue that is read from the front.
What it does on its own account between two calls is a list of events.

`wait_single` says what a successful wait leaves when one operation was handed to a queue
that had nothing pending: that operation has been carried out, and its completion is the
only one there is.
-/

namespace DeviceQueue

variable {ω γ δ ρ ε : Type}

/-- The operations and completions of a device of state `δ`. -/
structure Queue (ω γ δ : Type) where
  submissions : List ω
  inFlight : List ω
  completions : List γ
  device : δ

/-- What the device does on its own account. -/
inductive Event (ρ : Type) where
  | accept
  | complete (index : Nat) (reply : ρ)

/-- A call that submits and waits for one completion. -/
structure Wait (ρ ε : Type) where
  /-- What the device does before the call returns. -/
  events : List (Event ρ)
  /-- The call is cut short by an error. -/
  error : Option ε
  /-- How the oldest operation ends where the call succeeds and has to wait for it. -/
  last : ρ

namespace Queue

/-- Nothing waits to be taken, nothing is in flight, no completion is left. -/
structure Quiet (q : Queue ω γ δ) : Prop where
  submissions : q.submissions = []
  inFlight : q.inFlight = []
  completions : q.completions = []

/-- Hand an operation to the queue, unless the queue is full. -/
def push (capacity : Nat) (s : ω) (q : Queue ω γ δ) : Option (Queue ω γ δ) :=
  if q.submissions.length < capacity then
    some { q with submissions := q.submissions ++ [s] }
  else none

/-- Take the oldest completion. -/
def pop (q : Queue ω γ δ) : Option (γ × Queue ω γ δ) :=
  match q.completions with
  | [] => none
  | c :: cs => some (c, { q with completions := cs })

/-- The device takes the oldest submission. -/
def accept (q : Queue ω γ δ) : Queue ω γ δ :=
  match q.submissions with
  | [] => q
  | s :: ss => { q with submissions := ss, inFlight := q.inFlight ++ [s] }

variable (finish : δ → ω → ρ → δ × γ)

/-- The device ends an operation that is in flight. -/
def complete (index : Nat) (reply : ρ) (q : Queue ω γ δ) : Queue ω γ δ :=
  match q.inFlight[index]? with
  | none => q
  | some s =>
      { q with
        inFlight := q.inFlight.eraseIdx index
        completions := q.completions ++ [(finish q.device s reply).2]
        device := (finish q.device s reply).1 }

def event (q : Queue ω γ δ) : Event ρ → Queue ω γ δ
  | .accept => q.accept
  | .complete index reply => q.complete finish index reply

/-- Submit what is waiting and return once a completion is there. -/
def submitAndWait (w : Wait ρ ε) (q : Queue ω γ δ) : Option ε × Queue ω γ δ :=
  let q := w.events.foldl (event finish) q
  match w.error with
  | some e => (some e, q)
  | none =>
      let q := { q with submissions := [], inFlight := q.inFlight ++ q.submissions }
      match q.completions with
      | [] => (none, q.complete finish 0 w.last)
      | _ :: _ => (none, q)

/-- A queue that was quiet, with one operation on its way. -/
inductive Carries (d : δ) (s : ω) : Queue ω γ δ → Prop where
  | waiting : Carries d s ⟨[s], [], [], d⟩
  | flying : Carries d s ⟨[], [s], [], d⟩
  | done (reply : ρ) : Carries d s ⟨[], [], [(finish d s reply).2], (finish d s reply).1⟩

variable {finish}

theorem Quiet.eq
    {q : Queue ω γ δ}
    (hq : q.Quiet) :
    q = ⟨[], [], [], q.device⟩ := by
  obtain ⟨_, _, _, _⟩ := q
  obtain ⟨rfl, rfl, rfl⟩ := hq
  rfl

theorem Carries.accept
    {d : δ} {s : ω} {q : Queue ω γ δ}
    (h : Carries finish d s q) :
    Carries finish d s q.accept := by
  cases h with
  | waiting => exact .flying
  | flying => exact .flying
  | done reply => exact .done reply

theorem Carries.complete
    {d : δ} {s : ω} {q : Queue ω γ δ}
    (index : Nat) (reply : ρ)
    (h : Carries finish d s q) :
    Carries finish d s (q.complete finish index reply) := by
  cases h with
  | waiting => exact .waiting
  | flying =>
      cases index with
      | zero => exact .done reply
      | succ index => exact .flying
  | done reply' => exact .done reply'

theorem Carries.events
    {d : δ} {s : ω} {q : Queue ω γ δ}
    (events : List (Event ρ))
    (h : Carries finish d s q) :
    Carries finish d s (events.foldl (event finish) q) := by
  induction events generalizing q with
  | nil => exact h
  | cons e events ih =>
      cases e with
      | accept => exact ih h.accept
      | complete index reply => exact ih (h.complete index reply)

/-- A successful wait for a single operation ends it. -/
theorem wait_single
    (finish : δ → ω → ρ → δ × γ) (s : ω) {q : Queue ω γ δ} {w : Wait ρ ε} {capacity : Nat}
    (hq : q.Quiet)
    (hcapacity : 0 < capacity)
    (hw : w.error = none) :
    ∃ pushed reply,
      q.push capacity s = some pushed ∧
        pushed.submitAndWait finish w =
          (none, ⟨[], [], [(finish q.device s reply).2], (finish q.device s reply).1⟩) := by
  have hpush : q.push capacity s = some ⟨[s], [], [], q.device⟩ := by
    rw [hq.eq]
    exact if_pos hcapacity
  have hevents : Carries finish q.device s
      (w.events.foldl (event finish) ⟨[s], [], [], q.device⟩) :=
    Carries.events w.events .waiting
  generalize hq' : w.events.foldl (event finish) ⟨[s], [], [], q.device⟩ = q' at hevents
  simp only [submitAndWait, hw]
  cases hevents with
  | waiting =>
      refine ⟨_, w.last, hpush, ?_⟩
      simp only [hq']
      rfl
  | flying =>
      refine ⟨_, w.last, hpush, ?_⟩
      simp only [hq']
      rfl
  | done reply =>
      refine ⟨_, reply, hpush, ?_⟩
      simp only [hq']
      rfl

end Queue
end DeviceQueue

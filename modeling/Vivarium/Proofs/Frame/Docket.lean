import Vivarium.FrameOp
import Vivarium.Message
import Vivarium.Proofs.Machine.Run
/-!
# Dockets

To follow messages all the way from the inbox to a thread, an observer writes down what becomes of them.
Every message has its place in the docket, in the order of delivery, and a fate that changes until it is
settled. When a machine serves its queue, the docket tells which messages have a thread to show for it.
-/
namespace Vivarium

variable {α : Type}

/-! ## Fates -/

inductive MailFate where
  /-- It is in the inbox. -/
  | waiting
  /-- The inbox was emptied before the frame read it. -/
  | swept
  | refused
  /-- It is an event in the queue. -/
  | queued
  /-- The machine was reset before the event had its turn. -/
  | dropped
  /-- The event had its turn, but no thread came of it. -/
  | unheard
  | started
  deriving DecidableEq, Repr

namespace MailFate

def isQueued : MailFate → Bool
  | queued => true
  | _ => false

def wasQueued : MailFate → Bool
  | queued | dropped | unheard | started => true
  | _ => false

/-- What may come after a fate. Only messages that wait and events in the queue have anything to come. -/
def Leads : MailFate → MailFate → Prop
  | waiting, _ => True
  | queued, fate => fate = queued ∨ fate = dropped ∨ fate = unheard ∨ fate = started
  | fate, fate' => fate' = fate

theorem Leads.refl (a : MailFate) : a.Leads a := by
  cases a <;> simp [Leads]

theorem Leads.trans {a b c : MailFate} (h : a.Leads b) (h' : b.Leads c) : a.Leads c := by
  cases a with
  | waiting => trivial
  | queued => rcases h with rfl | rfl | rfl | rfl <;> simp_all [Leads]
  | _ =>
    obtain rfl := h
    exact h'

end MailFate

/-- Messages in the order of delivery, and what has become of them. -/
abbrev Docket (α : Type) := List (Message α × MailFate)

namespace Docket

/-- The messages with fates of some kind, as events. -/
def events (docket : Docket α) (kind : MailFate → Bool) : List (Event α) :=
  (docket.filter fun entry => kind entry.2).map (·.1.event)

/-- Every message is still in its place and has a fate that may come after the one it had. -/
def Forward (docket later : Docket α) : Prop :=
  ∀ (i : Nat) (letter : Message α) (fate : MailFate), docket[i]? = some (letter, fate) →
    ∃ fate', later[i]? = some (letter, fate') ∧ fate.Leads fate'

/-- The events of a reset machine are gone. -/
def drop (docket : Docket α) : Docket α :=
  docket.map fun entry => (entry.1, if entry.2 = .queued then .dropped else entry.2)

variable {docket later last : Docket α}

theorem events_append (docket later : Docket α) (kind : MailFate → Bool) :
    events (docket ++ later) kind = docket.events kind ++ later.events kind := by
  simp only [events, List.filter_append, List.map_append]

theorem events_map (letters : List (Message α)) (fate : Message α → MailFate) (kind : MailFate → Bool) :
    events (letters.map fun letter => (letter, fate letter)) kind =
      (letters.filter fun letter => kind (fate letter)).map (·.event) := by
  rw [events, List.filter_map, List.map_map]
  rfl

theorem Forward.refl (docket : Docket α) : docket.Forward docket :=
  fun _ _ fate h => ⟨fate, h, .refl fate⟩

theorem Forward.trans (h : docket.Forward later) (h' : later.Forward last) : docket.Forward last := by
  intro i letter fate hi
  obtain ⟨fate', hi', hleads⟩ := h i letter fate hi
  obtain ⟨fate'', hi'', hleads'⟩ := h' i letter fate' hi'
  exact ⟨fate'', hi'', hleads.trans hleads'⟩

theorem forward_of_prefix (h : docket <+: later) : docket.Forward later := by
  obtain ⟨new, rfl⟩ := h
  intro i letter fate hi
  have hlt : i < docket.length := (List.getElem?_eq_some_iff.1 hi).1
  exact ⟨fate, (List.getElem?_append_left hlt).trans hi, .refl fate⟩

theorem Forward.append {more more' : Docket α} (h : docket.Forward later)
    (hlength : later.length = docket.length) (h' : more.Forward more') :
    Forward (docket ++ more) (later ++ more') := by
  intro i letter fate hi
  by_cases hlt : i < docket.length
  · rw [List.getElem?_append_left hlt] at hi
    rw [List.getElem?_append_left (hlength ▸ hlt)]
    exact h i letter fate hi
  · rw [List.getElem?_append_right (Nat.le_of_not_lt hlt)] at hi
    rw [List.getElem?_append_right (hlength ▸ Nat.le_of_not_lt hlt), hlength]
    exact h' _ letter fate hi

theorem forward_map (docket : Docket α) {change : Message α × MailFate → MailFate}
    (h : ∀ entry : Message α × MailFate, entry.2.Leads (change entry)) :
    docket.Forward (docket.map fun entry => (entry.1, change entry)) := by
  intro i letter fate hi
  refine ⟨change (letter, fate), ?_, h (letter, fate)⟩
  rw [List.getElem?_map, hi]
  rfl

theorem Forward.cons {fate fate' : MailFate} (h : fate.Leads fate') (letter : Message α)
    (hrest : docket.Forward later) : Forward ((letter, fate) :: docket) ((letter, fate') :: later) := by
  intro i letter₀ fate₀ hi
  cases i with
  | zero =>
    obtain ⟨rfl, rfl⟩ := Prod.mk.inj (Option.some.inj hi)
    exact ⟨fate', rfl, h⟩
  | succ i => exact hrest i letter₀ fate₀ hi

/-- Whatever becomes of the messages in the inbox, they have been waiting for it. -/
theorem forward_waiting (letters : List (Message α)) (fate : Message α → MailFate) :
    Forward (letters.map fun letter => (letter, .waiting))
      (letters.map fun letter => (letter, fate letter)) := by
  intro i letter fate₀ hi
  rw [List.getElem?_map, Option.map_eq_some_iff] at hi
  obtain ⟨letter, hi, he⟩ := hi
  obtain ⟨rfl, rfl⟩ := Prod.mk.inj he
  exact ⟨fate letter, by rw [List.getElem?_map, hi]; rfl, trivial⟩

/-! ## Reset -/

theorem forward_drop (docket : Docket α) : docket.Forward docket.drop := by
  refine docket.forward_map fun entry => ?_
  split
  · next h =>
    rw [h]
    exact .inr (.inl rfl)
  · exact .refl _

theorem events_drop_isQueued (docket : Docket α) : docket.drop.events MailFate.isQueued = [] := by
  induction docket with
  | nil => rfl
  | cons entry rest ih =>
    obtain ⟨letter, fate⟩ := entry
    cases fate <;> exact ih

theorem events_drop_wasQueued (docket : Docket α) :
    docket.drop.events MailFate.wasQueued = docket.events MailFate.wasQueued := by
  induction docket with
  | nil => rfl
  | cons entry rest ih =>
    obtain ⟨letter, fate⟩ := entry
    cases fate with
    | waiting | swept | refused => exact ih
    | _ => exact congrArg (letter.event :: ·) ih

end Docket

variable [Scalar α]

/-! ## Turns of events -/

namespace Machine

variable {X : Type} {m : Machine α X}

/-- If a function answers and a core is free, a thread starts. -/
theorem trigger?_eq_some (h : m.board.pending = []) {affinity : Tag} (payload : Memory α) {function : Nat}
    (hfunction : m.board.resolve? affinity = some function)
    (hroom : m.threads.length < m.limits.maxThreads) : m.trigger? affinity payload =
      some { m with threads := m.threads ++ [[.enter function payload]] } := by
  have hcore : ¬m.limits.maxThreads ≤ m.threads.length + m.board.pending.length := by
    rw [h, List.length_nil]
    omega
  rw [trigger?, hfunction]
  exact if_neg hcore

/-- In all other cases none does. -/
theorem trigger?_eq_none {affinity : Tag} (payload : Memory α)
    (h : m.board.resolve? affinity = none ∨ m.limits.maxThreads ≤ m.threads.length) :
    m.trigger? affinity payload = none := by
  rw [trigger?]
  cases hfunction : m.board.resolve? affinity with
  | none => rfl
  | some function =>
    have hfull := h.resolve_left (by simp [hfunction])
    exact if_pos (Nat.le_add_right_of_le hfull)

end Machine

namespace Docket

/-- Every event in the queue has its turn. -/
def serve (m : Machine α FrameOp) : Docket α → Docket α
  | [] => []
  | (letter, fate) :: rest =>
    if fate = .queued then
      (letter, if (m.trigger? letter.affinity letter.payload).isSome then .started else .unheard) ::
        serve (m.trigger letter.affinity letter.payload) rest
    else (letter, fate) :: serve m rest

/-- Earlier messages have their turns first. -/
theorem serve_append (docket later : Docket α) (m : Machine α FrameOp) :
    serve m (docket ++ later) =
      docket.serve m ++ later.serve (m.handle (docket.events MailFate.isQueued)) := by
  induction docket generalizing m with
  | nil => rfl
  | cons entry rest ih =>
    obtain ⟨letter, fate⟩ := entry
    cases fate with
    | queued => exact congrArg (_ :: ·) (ih _)
    | _ => exact congrArg (_ :: ·) (ih m)

theorem length_serve (docket : Docket α) (m : Machine α FrameOp) :
    (docket.serve m).length = docket.length := by
  induction docket generalizing m with
  | nil => rfl
  | cons entry rest ih =>
    obtain ⟨letter, fate⟩ := entry
    cases fate with
    | queued => exact congrArg (· + 1) (ih _)
    | _ => exact congrArg (· + 1) (ih m)

theorem forward_serve (docket : Docket α) (m : Machine α FrameOp) : docket.Forward (docket.serve m) := by
  induction docket generalizing m with
  | nil => exact .refl []
  | cons entry rest ih =>
    obtain ⟨letter, fate⟩ := entry
    cases fate with
    | queued =>
      rw [serve, if_pos rfl]
      refine (ih _).cons ?_ letter
      split
      · exact .inr (.inr (.inr rfl))
      · exact .inr (.inr (.inl rfl))
    | _ => exact (ih m).cons (.refl _) letter

/-- Nothing is left in the queue. -/
theorem events_serve_isQueued (docket : Docket α) (m : Machine α FrameOp) :
    (docket.serve m).events MailFate.isQueued = [] := by
  induction docket generalizing m with
  | nil => rfl
  | cons entry rest ih =>
    obtain ⟨letter, fate⟩ := entry
    cases fate with
    | queued =>
      rw [serve, if_pos rfl]
      split
      · exact ih _
      · exact ih _
    | _ => exact ih m

/-- A turn does not undo that a message was queued. -/
theorem events_serve_wasQueued (docket : Docket α) (m : Machine α FrameOp) :
    (docket.serve m).events MailFate.wasQueued = docket.events MailFate.wasQueued := by
  induction docket generalizing m with
  | nil => rfl
  | cons entry rest ih =>
    obtain ⟨letter, fate⟩ := entry
    cases fate with
    | queued =>
      rw [serve, if_pos rfl]
      split
      · exact congrArg (letter.event :: ·) (ih _)
      · exact congrArg (letter.event :: ·) (ih _)
    | dropped | unheard | started => exact congrArg (letter.event :: ·) (ih m)
    | waiting | swept | refused => exact ih m

/-- A message is served by the machine as the events before it have left it. -/
theorem serve_turn (before after : Docket α) (letter : Message α) (m : Machine α FrameOp) :
    (serve m (before ++ (letter, .queued) :: after))[before.length]? =
      some (letter,
        if ((m.handle (before.events MailFate.isQueued)).trigger? letter.affinity letter.payload).isSome then
          .started
        else .unheard) := by
  rw [serve_append, List.getElem?_append_right (Nat.le_of_eq (before.length_serve m)),
    before.length_serve m, Nat.sub_self, serve, if_pos rfl]
  rfl

end Docket

end Vivarium

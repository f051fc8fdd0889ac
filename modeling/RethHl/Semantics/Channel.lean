import Mathlib.Algebra.Ring.Nat

/-!
# Bounded channels

A channel between two tasks: a queue with room for a number of messages, and the two ends. A send
waits while the queue is full and fails when the receiver has gone. A receive waits while the queue
is empty and ends when the sender has gone too; what was queued before that is still delivered.

The bound is a field, so a channel with too many messages cannot be built. `push` and `pop` are the
moves that succeed. Where they do not apply, the task at that end learns that the other end has
gone, or waits.
-/

universe u

/-- A channel with room for `limit` messages. -/
structure Channel (α : Type u) (limit : ℕ) where
  queue : List α
  sender : Bool
  receiver : Bool
  /-- The queue is never longer than the limit. -/
  length_le : queue.length ≤ limit

namespace Channel

variable {α : Type u} {limit : ℕ}

/-- An empty channel with both its ends. -/
def new : Channel α limit where
  queue := []
  sender := true
  receiver := true
  length_le := Nat.zero_le _

/-- Send a message while there is room. -/
def push (c : Channel α limit) (a : α) : Option (Channel α limit) :=
  if h : c.receiver = true ∧ c.queue.length < limit then
    some
      { c with
        queue := c.queue ++ [a]
        length_le := by
          rw [List.length_append]
          exact h.2 }
  else none

/-- Receive the first message. -/
def pop (c : Channel α limit) : Option (α × Channel α limit) :=
  match hqueue : c.queue with
  | [] => none
  | a :: queue =>
    some (a,
      { c with
        queue := queue
        length_le := by
          have := c.length_le
          rw [hqueue, List.length_cons] at this
          omega })

/-- The sender goes. -/
def dropSender (c : Channel α limit) : Channel α limit :=
  { c with sender := false }

/-- The receiver goes, and the messages that wait for it with it. -/
def dropReceiver (c : Channel α limit) : Channel α limit where
  queue := []
  sender := c.sender
  receiver := false
  length_le := Nat.zero_le _

@[simp] theorem queue_new : (new : Channel α limit).queue = [] := rfl

@[simp] theorem queue_dropSender (c : Channel α limit) : c.dropSender.queue = c.queue := rfl

@[simp] theorem receiver_dropSender (c : Channel α limit) :
    c.dropSender.receiver = c.receiver :=
  rfl

@[simp] theorem queue_dropReceiver (c : Channel α limit) : c.dropReceiver.queue = [] := rfl

@[simp] theorem receiver_dropReceiver (c : Channel α limit) : c.dropReceiver.receiver = false := rfl

variable {c c' : Channel α limit} {a : α}

theorem push_eq_some (h : c.push a = some c') :
    c'.queue = c.queue ++ [a] ∧ c'.sender = c.sender ∧ c'.receiver = c.receiver := by
  rw [push] at h
  split_ifs at h with hroom
  obtain rfl := Option.some.inj h
  exact ⟨rfl, rfl, rfl⟩

theorem receiver_of_push (h : c.push a = some c') : c.receiver = true := by
  rw [push] at h
  split_ifs at h with hroom
  exact hroom.1

theorem pop_eq_some (h : c.pop = some (a, c')) :
    c.queue = a :: c'.queue ∧ c'.sender = c.sender ∧ c'.receiver = c.receiver := by
  rw [pop] at h
  split at h
  · cases h
  · next a' queue hqueue =>
    obtain ⟨rfl, rfl⟩ := Prod.mk.inj (Option.some.inj h)
    exact ⟨hqueue, rfl, rfl⟩

/-- There is room. -/
theorem exists_push (hreceiver : c.receiver = true) (hroom : c.queue.length < limit) (a : α) :
    ∃ c', c.push a = some c' := by
  refine Option.isSome_iff_exists.1 ?_
  rw [push, dif_pos ⟨hreceiver, hroom⟩]
  rfl

/-- There is a message. -/
theorem exists_pop (h : c.queue ≠ []) : ∃ a c', c.pop = some (a, c') := by
  rw [pop]
  split
  · next hqueue => exact absurd hqueue h
  · exact ⟨_, _, rfl⟩

end Channel

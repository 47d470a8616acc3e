import Mathlib.Data.List.Basic

/-!
# A mailbox for one message

What has been sent is what has been received and the message that is in the box: this is part of the
type, so that an operation on a mailbox cannot lose, repeat or reorder a message.
-/

namespace UnixPrograms

variable {P M : Type}

inductive Phase (P M : Type) where
  | closed
  | empty
  | writing (sender : P)
  | full (m : M)
  | reading (m : M)

/-- The message that has been sent and not yet given back by the receiver. -/
def Phase.pending : Phase P M → List M
  | .full m | .reading m => [m]
  | .closed | .empty | .writing _ => []

lemma Phase.length_pending_le (φ : Phase P M) : φ.pending.length ≤ 1 := by
  cases φ <;> simp [Phase.pending]

structure Mailbox (P M : Type) where
  phase : Phase P M
  sent : List M
  received : List M
  consistent : sent = received ++ phase.pending

namespace Mailbox

@[simps]
def closed : Mailbox P M := ⟨.closed, [], [], rfl⟩

@[simps]
def opens (b : Mailbox P M) (h : b.phase = .closed) : Mailbox P M where
  phase := .empty
  sent := b.sent
  received := b.received
  consistent := by
    rw [b.consistent, h]
    rfl

@[simps]
def begins (b : Mailbox P M) (h : b.phase = .empty) (p : P) : Mailbox P M where
  phase := .writing p
  sent := b.sent
  received := b.received
  consistent := by
    rw [b.consistent, h]
    rfl

@[simps]
def sends (b : Mailbox P M) {p : P} (h : b.phase = .writing p) (m : M) : Mailbox P M where
  phase := .full m
  sent := b.sent ++ [m]
  received := b.received
  consistent := by
    have hnil : (Phase.writing p : Phase P M).pending = [] := rfl
    rw [b.consistent, h, hnil, List.append_nil]
    rfl

@[simps]
def takes (b : Mailbox P M) {m : M} (h : b.phase = .full m) : Mailbox P M where
  phase := .reading m
  sent := b.sent
  received := b.received
  consistent := by
    rw [b.consistent, h]
    rfl

@[simps]
def returns (b : Mailbox P M) {m : M} (h : b.phase = .reading m) : Mailbox P M where
  phase := .empty
  sent := b.sent
  received := b.received ++ [m]
  consistent := by
    have hnil : (Phase.empty : Phase P M).pending = [] := rfl
    rw [b.consistent, h, hnil, List.append_nil]
    rfl

lemma getElem?_sent (b : Mailbox P M) {m : M} (h : m ∈ b.phase.pending) :
    b.sent[b.received.length]? = some m := by
  have hpending : b.phase.pending = [m] := by
    revert h
    cases b.phase <;> simp [Phase.pending, eq_comm]
  rw [b.consistent, hpending, List.getElem?_concat_length]

end Mailbox

end UnixPrograms

import UnixPrograms.Lib.Files

/-!
# Requests and replies in datagrams

A network can lose, duplicate, delay and reorder datagrams: `Exchange` keeps every request and every
reply, and each may be received any number of times after it has been sent.
-/

namespace UnixPrograms

def overwrite (old new : Bytes) : Bytes := new ++ old.drop new.length

lemma take_overwrite (old new : Bytes) : (overwrite old new).take new.length = new :=
  List.take_left

/-- The requests that have been sent, and the replies of the server, each with the request that it
answers. -/
structure Exchange (ρ π : Type) where
  requests : List ρ
  replies : List (ρ × π)
  answered : ∀ p ∈ replies, p.1 ∈ requests

namespace Exchange

variable {ρ π : Type}

def empty : Exchange ρ π where
  requests := []
  replies := []
  answered _ hp := absurd hp List.not_mem_nil

def send (x : Exchange ρ π) (r : ρ) : Exchange ρ π where
  requests := x.requests ++ [r]
  replies := x.replies
  answered p hp := List.mem_append_left _ (x.answered p hp)

def answer (x : Exchange ρ π) (i : ℕ) (y : π) : Option (Exchange ρ π) :=
  if h : i < x.requests.length then
    some
      { requests := x.requests
        replies := x.replies ++ [(x.requests[i], y)]
        answered := fun p hp => by
          rcases List.mem_append.mp hp with hp | hp
          · exact x.answered p hp
          · rw [List.mem_singleton.mp hp]
            exact List.getElem_mem h }
  else none

variable {x x' : Exchange ρ π} {i : ℕ} {y : π}

lemma requests_answer (h : x.answer i y = some x') : x'.requests = x.requests := by
  obtain ⟨_, h⟩ := Option.dite_none_right_eq_some.mp h
  cases h
  rfl

lemma mem_replies_answer (h : x.answer i y = some x') {p : ρ × π} (hp : p ∈ x.replies) :
    p ∈ x'.replies := by
  obtain ⟨_, h⟩ := Option.dite_none_right_eq_some.mp h
  cases h
  exact List.mem_append_left _ hp

end Exchange

end UnixPrograms

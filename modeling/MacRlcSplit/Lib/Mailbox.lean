-- A place for one message between a sender and a reader, with the history
-- of both. A message that is put while another waits takes its place, so
-- nothing is lost as long as the reader empties it first.
import Mathlib.Algebra.Group.Int.Defs
import Mathlib.Algebra.GroupWithZero.Nat
import Mathlib.Data.List.Perm.Basic

open List

namespace MacRlcSplit.Lib

variable {α : Type}

/-- What was sent and what was got, oldest first, and the message that waits. -/
structure Mailbox (α : Type) where
  sent : List α := []
  got : List α := []
  waiting : Option α := none

namespace Mailbox

def put (m : Mailbox α) (a : α) : Mailbox α := { m with sent := m.sent ++ [a], waiting := some a }

def take (m : Mailbox α) : Mailbox α := { m with got := m.got ++ m.waiting.toList, waiting := none }

/-- Every message sent was got, once and in order, or is the one that waits. -/
def Exact (m : Mailbox α) : Prop := m.sent = m.got ++ m.waiting.toList

theorem exact_put {m : Mailbox α} (h : m.Exact) (hempty : m.waiting = none)
    (a : α) : (m.put a).Exact := by
  unfold Exact at h ⊢
  simp [put, h, hempty]

theorem exact_take {m : Mailbox α} (h : m.Exact) : m.take.Exact := by
  unfold Exact at h ⊢
  simp [take, h]

theorem got_take {m : Mailbox α} (h : m.Exact) : m.take.got = m.sent := by
  rw [h]
  rfl

end Mailbox

/-! ## Messages with a number of their own -/

/-- The messages in flight and those that arrived all have different numbers, below the
next one to be given out. -/
structure Numbered (flight arrived : List Nat) (next : Nat) : Prop where
  distinct : (flight ++ arrived).Nodup
  below : ∀ n ∈ flight ++ arrived, n < next

namespace Numbered

variable {flight arrived : List Nat} {next : Nat}

theorem nil (next : Nat) : Numbered [] [] next := ⟨by simp, by simp⟩

theorem send (h : Numbered flight arrived next) :
    Numbered (flight ++ [next]) arrived (next + 1) := by
  have hnew : next ∉ flight ++ arrived := by
    intro hmem
    exact absurd (h.below next hmem) (Nat.lt_irrefl next)
  have hperm : (flight ++ [next] ++ arrived).Perm (next :: (flight ++ arrived)) := by
    rw [append_assoc]
    exact perm_middle
  refine ⟨hperm.nodup_iff.2 (nodup_cons.2 ⟨hnew, h.distinct⟩), ?_⟩
  intro n hn
  rcases mem_cons.1 (hperm.subset hn) with rfl | hn
  · exact Nat.lt_succ_self n
  · exact Nat.lt_succ_of_lt (h.below n hn)

theorem lose (h : Numbered flight arrived next)
    (k : Nat) : Numbered (flight.eraseIdx k) arrived next := by
  have hsub : (flight.eraseIdx k ++ arrived).Sublist (flight ++ arrived) :=
    (eraseIdx_sublist flight k).append_right arrived
  exact ⟨hsub.nodup h.distinct, fun n hn => h.below n (hsub.subset hn)⟩

theorem arrive (h : Numbered flight arrived next) {k n : Nat} (hk : flight[k]? = some n) :
    Numbered (flight.eraseIdx k) (arrived ++ [n]) next := by
  obtain ⟨hlt, hget⟩ := List.getElem?_eq_some_iff.1 hk
  have hout : (n :: flight.eraseIdx k).Perm flight := by
    rw [← hget]
    exact getElem_cons_eraseIdx_perm hlt
  have hperm : (flight.eraseIdx k ++ (arrived ++ [n])).Perm (flight ++ arrived) := by
    rw [← append_assoc]
    exact (perm_append_singleton n _).trans (hout.append_right arrived)
  exact ⟨hperm.nodup_iff.2 h.distinct, fun m hm => h.below m (hperm.subset hm)⟩

end Numbered

end MacRlcSplit.Lib

-- Memory from a pointer on, as a list of bytes: a copy that must stay inside
-- it, and the exclusive or with a stream of key bytes.
import Mathlib.Algebra.Group.Int.Defs
import Mathlib.Algebra.GroupWithZero.Nat
import Mathlib.Tactic.Common

open List

namespace MacRlcSplit.Lib

/-! ## Copies -/

section Copies

variable {α : Type}

/-- A copy of `src` to the place `off` on. None when it does not fit the memory. -/
def writeAt (off : Nat) (src mem : List α) : Option (List α) :=
  if off + src.length ≤
    mem.length then some (mem.take off ++ src ++ mem.drop (off + src.length)) else none

/-- `memcpy`: the first `len` elements of `src` are copied to the start. -/
def copyTo (len : Nat) (src mem : List α) : Option (List α) :=
  if len ≤ src.length then writeAt 0 (src.take len) mem else none

theorem writeAt_append {a b c src : List α} {off : Nat} (hoff : off = a.length)
    (hlen : b.length = src.length) : writeAt off src (a ++ b ++ c) = some (a ++ src ++ c) := by
  subst hoff
  have hfits : a.length + src.length ≤ (a ++ b ++ c).length := by
    simp only [length_append, hlen]
    omega
  have htake : (a ++ b ++ c).take a.length = a := by
    rw [append_assoc]
    exact take_left
  have hdrop : (a ++ b ++ c).drop (a.length + src.length) = c := by
    rw [← hlen, ← length_append]
    exact drop_left
  rw [writeAt, if_pos hfits, htake, hdrop]

theorem writeAt_behind (kept : List α) {src mem : List α} (h : src.length ≤ mem.length) :
    writeAt kept.length src (kept ++ mem) = some (kept ++ src ++ mem.drop src.length) := by
  have htake : (mem.take src.length).length = src.length := length_take_of_le h
  have hwrite := writeAt_append (a := kept) (c := mem.drop src.length) rfl htake
  rwa [append_assoc, take_append_drop] at hwrite

theorem writeAt_some {src mem mem' : List α} {off : Nat} (h : writeAt off src mem = some mem') :
    off + src.length ≤ mem.length ∧ mem'.length = mem.length := by
  unfold writeAt at h
  split at h
  · rename_i hfits
    cases h
    refine ⟨hfits, ?_⟩
    simp only [length_append, length_take, length_drop]
    omega
  · cases h

theorem copyTo_append {message rest b c : List α} {len : Nat} (hlen : len = message.length)
    (hb : b.length = len) : copyTo len (message ++ rest) (b ++ c) = some (message ++ c) := by
  subst hlen
  have hle : message.length ≤ (message ++ rest).length := (prefix_append message rest).length_le
  rw [copyTo, if_pos hle, take_left]
  exact writeAt_append (a := []) rfl hb

theorem copyTo_getElem? {len : Nat} {src mem mem' : List α} (h : copyTo len src mem = some mem')
    {i : Nat} (hi : i < len) : mem'[i]? = src[i]? := by
  unfold copyTo writeAt at h
  split at h
  · split at h
    · cases h
      rw [take_zero, nil_append, getElem?_append_left (by rw [length_take]; omega),
        getElem?_take_of_lt hi]
    · cases h
  · cases h

end Copies

/-! ## Key streams -/

/-- The bytes of a message with those of a key stream. -/
def xorStream (stream : Nat → UInt8) (message : List UInt8) : List UInt8 :=
  message.mapIdx fun i byte => byte ^^^ stream i

@[simp] theorem length_xorStream (stream : Nat → UInt8) (message : List UInt8) :
    (xorStream stream message).length = message.length := by
  simp [xorStream]

theorem getElem?_xorStream (stream : Nat → UInt8) (message : List UInt8) (i : Nat) :
    (xorStream stream message)[i]? = message[i]?.map (· ^^^ stream i) := getElem?_mapIdx

@[simp] theorem xorStream_twice (stream : Nat → UInt8) (message : List UInt8) :
    xorStream stream (xorStream stream message) = message := by
  unfold xorStream
  refine ext_getElem (by simp) fun i hi hi' => ?_
  simp only [getElem_mapIdx, UInt8.xor_assoc, UInt8.xor_self, UInt8.xor_zero]

end MacRlcSplit.Lib

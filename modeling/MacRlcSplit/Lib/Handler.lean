-- Handlers of a message in memory: they read numbers of it, copy parts of it
-- and change a state. Every access is kept in a log, so that one can say which
-- accesses stay inside the message and inside the buffer that is copied to.
import MacRlcSplit.Lib.Fields

open List

namespace MacRlcSplit.Lib

/-- A read of `n` bytes, or a copy of `n` bytes to a buffer of `room` bytes. -/
inductive Access where
  | read (off n : Nat)
  | copy (off n : Int) (room : Nat)
deriving DecidableEq, Repr

/-- The access stays inside a message of `len` bytes, and inside the buffer. -/
def Access.Within (len : Nat) : Access → Prop
  | .read off n => off + n ≤ len
  | .copy off n room => 0 ≤ off ∧ 0 ≤ n ∧ off + n ≤ len ∧ n ≤ room

instance (len : Nat) (a : Access) : Decidable (Access.Within len a) := by
  cases a <;> unfold Access.Within <;> infer_instance

/-- What it gives, the new state and the accesses. None when the process does not survive. -/
def Handler (σ α : Type) : Type := σ → Option (α × σ × List Access)

namespace Handler

variable {σ α β : Type}

instance : Monad (Handler σ) where
  pure a := fun s => some (a, s, [])
  bind h f := fun s => (h s).bind fun r => (f r.1 r.2.1).map fun r' =>
    (r'.1, r'.2.1, r.2.2 ++ r'.2.2)

/-- A little-endian number of the message. -/
def readLe (mem : Nat → UInt8) (off n : Nat) : Handler σ Nat :=
  fun s => some (leAt mem off n, s, [.read off n])

/-- `memcpy` from the message. A negative length is a huge one, which the process does not
survive. -/
def copyFrom (mem : Nat → UInt8) (off n : Int) (room : Nat) : Handler σ (List UInt8) := fun s =>
  if 0 ≤ off ∧ 0 ≤ n then some (bytesAt mem off.toNat n.toNat, s, [.copy off n room]) else none

def get : Handler σ σ := fun s => some (s, s, [])

def set (s : σ) : Handler σ Unit := fun _ => some ((), s, [])

/-- A call that the process may not survive. -/
def call (r : Option α) : Handler σ α := fun s => r.map fun a => (a, s, [])

/-- Nothing is done when the condition fails. -/
def onlyIf (c : Prop) [Decidable c] (h : Handler σ Unit) : Handler σ Unit :=
  if c then h else pure ()

/-- A handler of the first of two states. -/
def first {τ : Type} (h : Handler σ α) : Handler (σ × τ) α := fun s =>
  (h s.1).map fun r => (r.1, (r.2.1, s.2), r.2.2)

/-! ## Rules -/

variable {W : Access → Prop} {s : σ}

/-- The handler goes through, all its accesses are as `W` says, and `Q` holds at the end. -/
def Keeps (W : Access → Prop) (h : Handler σ α) (s : σ) (Q : α → σ → Prop) : Prop :=
  ∃ a s' log, h s = some (a, s', log) ∧ (∀ x ∈ log, W x) ∧ Q a s'

theorem bind_apply (h : Handler σ α) (f : α → Handler σ β) (s : σ) :
    (h >>= f) s = (h s).bind fun r => (f r.1 r.2.1).map fun r' => (r'.1, r'.2.1, r.2.2 ++ r'.2.2) :=
  rfl

variable {Q : α → σ → Prop} {h : Handler σ α}

/-! A handler has exactly one outcome, so each rule says when it keeps to `W`, and not only
that it does. -/

@[simp] theorem keeps_pure {a : α} : Keeps W (pure a) s Q ↔ Q a s := by
  constructor
  · rintro ⟨_, _, _, hrun, -, hQ⟩
    cases hrun
    exact hQ
  · exact fun hQ => ⟨a, s, [], rfl, forall_mem_nil W, hQ⟩

@[simp] theorem keeps_bind {Q : β → σ → Prop} {f : α → Handler σ β} :
    Keeps W (h >>= f) s Q ↔ Keeps W h s fun a s' => Keeps W (f a) s' Q := by
  constructor
  · rintro ⟨b, t, log, hrun, hlog, hQ⟩
    rw [bind_apply, Option.bind_eq_some_iff] at hrun
    obtain ⟨⟨a, s', l⟩, hh, hf⟩ := hrun
    obtain ⟨⟨b', t', l'⟩, hf', heq⟩ := Option.map_eq_some_iff.1 hf
    cases heq
    rw [forall_mem_append] at hlog
    exact ⟨a, s', l, hh, hlog.1, b', t', l', hf', hlog.2, hQ⟩
  · rintro ⟨a, s', log, hrun, hlog, b, s'', log', hrun', hlog', hQ⟩
    refine ⟨b, s'', log ++ log', ?_, forall_mem_append.2 ⟨hlog, hlog'⟩, hQ⟩
    rw [bind_apply, hrun, Option.bind_some, hrun']
    rfl

@[simp] theorem keeps_read {mem : Nat → UInt8} {off n : Nat} {Q : Nat → σ → Prop} :
    Keeps W (readLe mem off n) s Q ↔ W (.read off n) ∧ Q (leAt mem off n) s := by
  constructor
  · rintro ⟨_, _, _, hrun, hlog, hQ⟩
    cases hrun
    exact ⟨forall_mem_singleton.1 hlog, hQ⟩
  · exact fun ⟨hW, hQ⟩ => ⟨_, s, _, rfl, forall_mem_singleton.2 hW, hQ⟩

@[simp] theorem keeps_copy {mem : Nat → UInt8} {off n : Int} {room : Nat}
    {Q : List UInt8 → σ → Prop} :
    Keeps W (copyFrom mem off n room) s Q ↔
      (0 ≤ off ∧ 0 ≤ n) ∧ W (.copy off n room) ∧ Q (bytesAt mem off.toNat n.toNat) s := by
  constructor
  · rintro ⟨_, _, _, hrun, hlog, hQ⟩
    unfold copyFrom at hrun
    split at hrun
    · cases hrun
      exact ⟨‹_›, forall_mem_singleton.1 hlog, hQ⟩
    · cases hrun
  · rintro ⟨hpos, hW, hQ⟩
    exact ⟨_, s, _, if_pos hpos, forall_mem_singleton.2 hW, hQ⟩

@[simp] theorem keeps_get {Q : σ → σ → Prop} : Keeps W get s Q ↔ Q s s :=
  ⟨fun ⟨_, _, _, hrun, _, hQ⟩ => by cases hrun; exact hQ,
    fun hQ => ⟨s, s, [], rfl, forall_mem_nil W, hQ⟩⟩

@[simp] theorem keeps_set {Q : Unit → σ → Prop} {s' : σ} : Keeps W (set s') s Q ↔ Q () s' :=
  ⟨fun ⟨_, _, _, hrun, _, hQ⟩ => by cases hrun; exact hQ,
    fun hQ => ⟨(), s', [], rfl, forall_mem_nil W, hQ⟩⟩

@[simp] theorem keeps_call {r : Option α} : Keeps W (call r) s Q ↔ ∃ a, r = some a ∧ Q a s := by
  constructor
  · rintro ⟨_, _, _, hrun, -, hQ⟩
    obtain ⟨_, hr, heq⟩ := Option.map_eq_some_iff.1 hrun
    cases heq
    exact ⟨_, hr, hQ⟩
  · rintro ⟨a, rfl, hQ⟩
    exact ⟨a, s, [], rfl, forall_mem_nil W, hQ⟩

@[simp] theorem keeps_ite {c : Prop} [Decidable c] {h' : Handler σ α} :
    Keeps W (if c then h else h') s Q ↔ (c → Keeps W h s Q) ∧ (¬ c → Keeps W h' s Q) := by
  by_cases hc : c <;> simp [hc]

@[simp] theorem keeps_onlyIf {c : Prop} [Decidable c] {h : Handler σ Unit}
    {Q : Unit → σ → Prop} :
    Keeps W (onlyIf c h) s Q ↔ (c → Keeps W h s Q) ∧ (¬ c → Q () s) := by
  simp [onlyIf]

theorem keeps_first {τ : Type} {t : τ} {Q : α → σ × τ → Prop} :
    Keeps W h.first (s, t) Q ↔ Keeps W h s fun a s' => Q a (s', t) := by
  constructor
  · rintro ⟨_, _, _, hrun, hlog, hQ⟩
    obtain ⟨⟨a, s', log⟩, hh, heq⟩ := Option.map_eq_some_iff.1 hrun
    cases heq
    exact ⟨a, s', log, hh, hlog, hQ⟩
  · rintro ⟨a, s', log, hrun, hlog, hQ⟩
    exact ⟨a, (s', t), log, by rw [first, hrun]; rfl, hlog, hQ⟩

theorem Keeps.mono {Q' : α → σ → Prop} (hh : Keeps W h s Q) (hQ : ∀ a s', Q a s' → Q' a s') :
    Keeps W h s Q' := by
  obtain ⟨a, s', log, hrun, hlog, hq⟩ := hh
  exact ⟨a, s', log, hrun, hlog, hQ a s' hq⟩

theorem Keeps.and {W' : Access → Prop} {Q' : α → σ → Prop} (hh : Keeps W h s Q)
    (hh' : Keeps W' h s Q') : Keeps W h s fun a s' => Q a s' ∧ Q' a s' := by
  obtain ⟨a, s', log, hrun, hlog, hq⟩ := hh
  obtain ⟨a', t', log', hrun', -, hq'⟩ := hh'
  rw [hrun] at hrun'
  cases hrun'
  exact ⟨a, s', log, hrun, hlog, hq, hq'⟩

end Handler

end MacRlcSplit.Lib

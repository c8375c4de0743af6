import Mathlib.Data.Nat.Notation

/-!
# Ping-pong pairs

One writer, two slots: the writer fills a slot and moves to the other, and what it has
finished is the slot it is not at.
-/

namespace OlympusFirmware.Lib

universe u

/-- Two slots and the index of the one to be written next. -/
structure PingPong (α : Type u) where
  slots : Vector α 2
  wr : Nat
  inRange : wr < 2

namespace PingPong

variable {α : Type u}

/-- A pair with one value in both slots. -/
def init (x : α) : PingPong α := ⟨.replicate 2 x, 0, by decide⟩

/-- Fill the slot and go to the other. -/
def write (p : PingPong α) (x : α) : PingPong α :=
  ⟨p.slots.set p.wr x p.inRange, (p.wr + 1) % 2, Nat.mod_lt _ (by decide)⟩

/-- The slot that is not being written. -/
def read (p : PingPong α) : α := p.slots[(p.wr + 1) % 2]

/-- What is read is what was written last. -/
@[simp] theorem read_write (p : PingPong α) (x : α) : (p.write x).read = x := by
  have back : ((p.wr + 1) % 2 + 1) % 2 = p.wr := by
    have := p.inRange
    omega
  simp [read, write, back]

end PingPong

end OlympusFirmware.Lib

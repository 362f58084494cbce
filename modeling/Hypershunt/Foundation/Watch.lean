import Mathlib.Data.Nat.Notation

/-!
# Watch channels

A watch channel holds one value that senders overwrite and receivers read. Each write bumps a
version, which is what a receiver compares against to learn that something changed. Senders and
receivers are counted: a channel without senders is closed, and a send to a channel without
receivers is refused and writes nothing.
-/

namespace Hypershunt

structure Watch (V : Type*) where
  value : V
  version : ℕ
  senders : ℕ
  receivers : ℕ
  deriving DecidableEq

namespace Watch

variable {V : Type*} (w : Watch V)

/-- A new channel, with the one sender and the one receiver that creating it returns. -/
def channel (v : V) : Watch V := ⟨v, 0, 1, 1⟩

/-- Nothing will ever be sent again, so whoever waits for a change is woken. -/
def closed : Bool := w.senders == 0

/-- Overwrite the value, unless nobody could see it. -/
def send (v : V) : Option (Watch V) :=
  if w.receivers = 0 then none else some { w with value := v, version := w.version + 1 }

def dropSender : Watch V := { w with senders := w.senders - 1 }

def cloneReceiver : Watch V := { w with receivers := w.receivers + 1 }

def dropReceiver : Watch V := { w with receivers := w.receivers - 1 }

@[simp] theorem senders_dropSender : w.dropSender.senders = w.senders - 1 := rfl

@[simp] theorem senders_cloneReceiver : w.cloneReceiver.senders = w.senders := rfl

@[simp] theorem senders_dropReceiver : w.dropReceiver.senders = w.senders := rfl

theorem closed_iff : w.closed = true ↔ w.senders = 0 := beq_iff_eq

theorem send_of_receivers_ne_zero (h : w.receivers ≠ 0) (v : V) :
    w.send v = some { w with value := v, version := w.version + 1 } :=
  if_neg h

end Watch

end Hypershunt

/-! The idle deadline of a connection. Time is a clock reading in milliseconds; elapsed time is the difference of
two readings in 64-bit words, so a clock that is set back makes it wrap. -/
namespace Multiplex

structure IdleDeadline where
  timeout : UInt64
  last : UInt64 := 0
  active : Bool := false
  deriving DecidableEq

namespace IdleDeadline

def start (d : IdleDeadline) (now : UInt64) : IdleDeadline := { d with last := now, active := true }

/-- Activity counts only while the deadline is active. -/
def touch (d : IdleDeadline) (now : UInt64) : IdleDeadline := if d.active then { d with last := now } else d

def cancel (d : IdleDeadline) : IdleDeadline := { d with active := false }

def elapsed (d : IdleDeadline) (now : UInt64) : UInt64 := now - d.last

def isExpired (d : IdleDeadline) (now : UInt64) : Bool := d.active && d.timeout ≤ d.elapsed now

def remaining (d : IdleDeadline) (now : UInt64) : UInt64 :=
  if d.active && d.elapsed now < d.timeout then d.timeout - d.elapsed now else 0

@[simp] theorem active_cancel (d : IdleDeadline) : d.cancel.active = false := rfl

@[simp] theorem isExpired_cancel (d : IdleDeadline) (now : UInt64) : d.cancel.isExpired now = false := rfl

@[simp] theorem timeout_touch (d : IdleDeadline) (now : UInt64) : (d.touch now).timeout = d.timeout := by
  unfold touch
  split <;> rfl

@[simp] theorem active_touch (d : IdleDeadline) (now : UInt64) : (d.touch now).active = d.active := by
  unfold touch
  split <;> simp_all

theorem remaining_eq_zero_of_isExpired {d : IdleDeadline} {now : UInt64} (h : d.isExpired now = true) :
    d.remaining now = 0 := by
  have h' : d.active = true ∧ d.timeout ≤ d.elapsed now := by simpa [isExpired] using h
  simp [remaining, UInt64.not_lt.2 h'.2]

end IdleDeadline

end Multiplex

/-! A queue of tasks and the flag that ends it. A stopped loop takes no new task but still gives out those it
has. A round takes the whole queue, so tasks that a round posts wait for the next one. -/
namespace Multiplex

structure Loop (α : Type) where
  queue : List α := []
  stopped : Bool := false

namespace Loop

variable {α : Type}

def post (l : Loop α) (a : α) : Option (Loop α) :=
  if l.stopped then none else some { l with queue := l.queue ++ [a] }

def stop (l : Loop α) : Loop α := { l with stopped := true }

def emptied (l : Loop α) : Loop α := { l with queue := [] }

theorem post_eq_some_iff {l l' : Loop α} {a : α} :
    l.post a = some l' ↔ l.stopped = false ∧ l' = { l with queue := l.queue ++ [a] } := by
  cases h : l.stopped <;> simp [post, h, eq_comm]

@[simp] theorem post_stop (l : Loop α) (a : α) : l.stop.post a = none := rfl

@[simp] theorem queue_emptied (l : Loop α) : l.emptied.queue = [] := rfl

@[simp] theorem stopped_emptied (l : Loop α) : l.emptied.stopped = l.stopped := rfl

end Loop

end Multiplex

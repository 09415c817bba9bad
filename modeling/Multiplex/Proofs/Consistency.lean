import Multiplex.Proofs.Execution

/-! The register between two operations. While observers are told that an exchange has ended, the exchange is still
registered, and on a stopped loop they may look at the connection then. Whoever has ended in the course of an operation
has left when the operation is over, so all that was registered before and is registered after stands where its entry
says. -/
namespace Multiplex

open Bytes Wire

namespace Registry

variable {α : Type} {r : Registry α}

theorem Coherent.numbers_nodup (h : r.Coherent) : (r.entries.map (·.id.toNat)).Nodup :=
  List.pairwise_map.2 (h.ascending.imp fun hlt => Nat.ne_of_lt (UInt32.lt_iff_toNat_lt.1 hlt))

theorem Coherent.length_le (h : r.Coherent) {n : Nat} (hn : ∀ e ∈ r.entries, e.id.toNat < n) :
    r.entries.length ≤ n := by
  have hsub : r.entries.map (·.id.toNat) ⊆ List.range n := by
    intro id hid
    obtain ⟨e, he, rfl⟩ := List.mem_map.1 hid
    exact List.mem_range.2 (hn e he)
  have hle := (List.subperm_of_subset h.numbers_nodup hsub).length_le
  rwa [List.length_map, List.length_range] at hle

theorem Coherent.active_le (h : r.Coherent) : r.active ≤ r.entries.length := h.counted ▸ List.countP_le_length

/-- As long as some id is free, the count fits a 32-bit word. -/
theorem Coherent.active_lt_size (h : r.Coherent) {id : UInt32} (hfree : r.contains id = false) :
    r.active < UInt32.size := by
  have hnodup : (id.toNat :: r.entries.map (·.id.toNat)).Nodup := by
    refine List.nodup_cons.2 ⟨fun hm => ?_, h.numbers_nodup⟩
    obtain ⟨e, he, hid⟩ := List.mem_map.1 hm
    exact contains_eq_false_iff.1 hfree e he (UInt32.toNat_inj.1 hid)
  have hsub : id.toNat :: r.entries.map (·.id.toNat) ⊆ List.range UInt32.size := by
    intro n hn
    rcases List.mem_cons.1 hn with rfl | hn
    · exact List.mem_range.2 id.toNat_lt
    · obtain ⟨e, -, rfl⟩ := List.mem_map.1 hn
      exact List.mem_range.2 e.id.toNat_lt
  have hle := (List.subperm_of_subset hnodup hsub).length_le
  rw [List.length_cons, List.length_map, List.length_range] at hle
  exact Nat.lt_of_le_of_lt h.active_le hle

theorem ne_of_mem_remove {id : UInt32} {e : Entry α} (he : e ∈ (r.remove id).2.entries) : e.id ≠ id := by
  unfold remove at he
  split at he
  · rename_i hnone
    exact findEntry_eq_none_iff.1 hnone e he
  · have hfilter : e ∈ r.entries.filter fun y => y.id != id := by
      dsimp only at he
      split at he <;> exact he
    exact bne_iff_ne.1 (List.mem_filter.1 hfilter).2

theorem mem_remove_of_ne {id : UInt32} {e : Entry α} (he : e ∈ r.entries) (hne : e.id ≠ id) :
    e ∈ (r.remove id).2.entries := by
  unfold remove
  split
  · exact he
  · have hfilter : e ∈ r.entries.filter fun y => y.id != id := List.mem_filter.2 ⟨he, bne_iff_ne.2 hne⟩
    dsimp only
    split <;> exact hfilter

end Registry

namespace Session

variable {κ τ ω σ : Type} [Codec κ] [Transport τ] {w : Surroundings κ τ ω σ} {left : Stream → Prop}
  {s s' u v s₀ : Session κ τ ω σ} {x : Stream}

theorem Takes.entries {act : Metadata → Turn κ → Turn κ} (h : Takes s x u act) {y : Registry.Entry Stream}
    (hy : y ∈ u.registry.entries) : ∃ z ∈ s.registry.entries, z.id = y.id ∧ z.item = y.item := by
  cases h with
  | start =>
    obtain ⟨z, hz, rfl⟩ := List.mem_map.1 hy
    refine ⟨z, hz, ?_⟩
    split <;> exact ⟨rfl, rfl⟩
  | head | data | window => exact ⟨y, hy, rfl, rfl⟩

theorem Takes.entries_turned {act : Metadata → Turn κ → Turn κ} (h : Takes s x u act) {y : Registry.Entry Stream}
    (hy : y ∈ (u.turned (act u.metadata (u.turnOf x))).registry.entries) :
    ∃ z ∈ s.registry.entries, z.id = y.id ∧
      (z.item = y.item ∨ z.item.ticket = x.ticket ∧ y.item = (act u.metadata (u.turnOf x)).stream) := by
  obtain ⟨y', hy', rfl⟩ := List.mem_map.1 hy
  obtain ⟨z, hz, hid, hitem⟩ := h.entries hy'
  split
  · rename_i hsame
    refine ⟨z, hz, hid, Or.inr ⟨?_, rfl⟩⟩
    rw [hitem, beq_iff_eq.1 hsame]
    exact h.prompt.continues.ticket
  · exact ⟨z, hz, hid, Or.inl hitem⟩

omit [Codec κ] [Transport τ] in
theorem mem_entries_removed {id : UInt32} {y : Registry.Entry Stream} (hy : y ∈ (s.registry.remove id).2.entries) :
    y ∈ s.registry.entries := (Registry.entries_remove s.registry id).subset hy

/-- Whoever has ended during an execution has left when it is over. -/
theorem Execution.closed (h : Execution w left s s') (hi : s.Intact) {y : Registry.Entry Stream}
    (hy : y ∈ s'.registry.entries) (hs : y.item.state = .closed) :
    ∃ z ∈ s.registry.entries, z.id = y.id ∧ z.item.state = .closed := by
  induction h generalizing y with
  | refl => exact ⟨y, hy, rfl, hs⟩
  | @atomic left s s' h =>
    cases h with
    | lines | inline | twice | notify | observe | hold | drift | stop | refuse | drop | pass | stray | acknowledged
    | certified | receive | drain | write | establish | farewell | blame | ask | announce | dismiss =>
      exact ⟨y, hy, rfl, hs⟩
    | queue =>
      rcases List.mem_append.1 hy with hy | hy
      · exact ⟨y, hy, rfl, hs⟩
      · rw [List.mem_singleton.1 hy] at hs
        exact StreamState.noConfusion hs
    | @turn u x act h he =>
      obtain ⟨z, hz, hid, hitem | ⟨hticket, hitem⟩⟩ := h.entries_turned hy
      · exact ⟨z, hz, hid, hitem ▸ hs⟩
      -- A turn that ends its exchange takes it off the register, and this one is there.
      · refine ⟨z, hz, hid, Classical.not_not.1 fun hopen => ?_⟩
        rw [hi.entry hz h.mem hticket] at hopen
        exact h.open_of_none hi hopen he (hitem ▸ hs)
    | leave | conclude => exact ⟨y, mem_entries_removed hy, rfl, hs⟩
    | @report x registry hd hx hopen =>
      have hsub := Registry.entries_remove s.registry x.id
      rw [hx] at hsub
      exact ⟨y, hsub.subset hy, rfl, hs⟩
  | trans h _ ih ih' =>
    obtain ⟨z, hz, hid, hclosed⟩ := ih' (h.intact hi) hy hs
    obtain ⟨z', hz', hid', hclosed'⟩ := ih hi hz hclosed
    exact ⟨z', hz', hid'.trans hid, hclosed'⟩
  | pass _ _ ih => exact ih (hi.of_same rfl rfl rfl rfl) hy hs
  | @ended left s u v x act e h hopen hv he _ _ ih =>
    obtain ⟨z, hz, hid, hclosed⟩ := ih (h.intact_given hi he) (mem_entries_removed hy) hs
    obtain ⟨z', hz', hid', hitem | ⟨hticket, -⟩⟩ := h.entries_turned hz
    · exact ⟨z', hz', hid'.trans hid, hitem ▸ hclosed⟩
    · have hown : z'.id = x.id := by
        rw [← hi.ids z' hz', hi.entry hz' h.mem hticket]
      exact absurd ((hid'.trans hid).symm.trans hown) (Registry.ne_of_mem_remove hy)
  | @lost left s u v transport cause hl ht htold _ _ _ _ _ ih' =>
    have hnotedLoss : (s.lossNoted transport cause).Intact := hi.of_same rfl rfl rfl rfl
    obtain ⟨z, hz, -⟩ := ih' (htold.intact hnotedLoss).cleared hy hs
    exact absurd hz List.not_mem_nil

/-- The next id never wraps around. -/
theorem Transition.next_le (h : Transition w s s') (hn : s.nextId.toNat ≤ lastId.toNat + 2) :
    s'.nextId.toNat ≤ lastId.toNat + 2 := by
  rcases h.nextId with hsame | ⟨hopen, hnext⟩
  · exact hsame ▸ hn
  · rw [hnext, toNat_next hopen]
    exact Nat.add_le_add_right (nextId_le hopen) 2

theorem Transitions.next_le (h : Transitions w s s') (hn : s.nextId.toNat ≤ lastId.toNat + 2) :
    s'.nextId.toNat ≤ lastId.toNat + 2 := by
  induction h with
  | refl => exact hn
  | tail _ hlast ih => exact hlast.next_le ih

omit [Codec κ] [Transport τ] in
/-- The count of exchanges that run fits a 32-bit word, also in the middle of an operation. -/
theorem Intact.active_lt (hi : s.Intact) (hn : s.nextId.toNat ≤ lastId.toNat + 2) :
    s.registry.active < UInt32.size := by
  have hle := hi.ordered.coherent.length_le (n := lastId.toNat + 2) fun e he =>
    Nat.lt_of_lt_of_le (UInt32.lt_iff_toNat_lt.1 (hi.above he)) hn
  have hbound : lastId.toNat + 2 < UInt32.size := by decide
  exact Nat.lt_of_le_of_lt (Nat.le_trans hi.ordered.coherent.active_le hle) hbound

/-- Between two operations nobody registered has ended. -/
theorem run_open (h₀ : Created s₀) (h : FreeRun s₀ s) {e : Registry.Entry Stream} (he : e ∈ s.registry.entries) :
    e.item.state ≠ .closed := by
  intro hs
  obtain ⟨z, hz, -⟩ := (h.execution h₀.intact).closed h₀.intact he hs
  rw [h₀.fields.2.1] at hz
  exact List.not_mem_nil hz

/-- In every state of a run, on any loop, the register is in step: nobody in it has ended. The count fits a 32-bit word.
-/
theorem run_registry_inStep (h₀ : Created s₀) (h : FreeRun s₀ s) :
    s.registry.InStep ∧ s.registry.active < UInt32.size := by
  have hrun := h.transitions h₀.intact
  have hi := hrun.intact h₀.intact
  refine ⟨hi.ordered.inStep fun e he => (hi.placed e he).resolve_left (run_open h₀ h he), hi.active_lt ?_⟩
  refine hrun.next_le ?_
  rw [h₀.fields.2.2.2.2.2.1]
  decide

/-- One exchange runs and one waits, on a loop that has stopped. -/
theorem run_registry_inStep_scripted :
    ∃ s : Session Scripted.Codec Scripted.Transport Unit Unit, s.loop.stopped = true ∧ s.registry.pending = [3] ∧
      s.registry.active = 1 ∧ s.registry.InStep := by
  let request : Request := { url := ascii "https://example.com/" }
  let codec : Scripted.Codec := { localLimit := 1, arrival := .events [{ body := .settingsAcknowledged }] }
  let ops : List (Operation Scripted.Transport Unit) :=
    [.established (some {}), .bytesReceived [], .submit request, .submit request]
  have hstopped : FreeRun (fresh codec) { fresh codec with loop := (fresh codec).loop.stop } := (Activity.refl _).stop
  have hrun := hstopped.trans (Activity.performAll (r := ⟨fun _ _ s => s⟩) (fun _ _ u => .refl u)
    (fun op (_ : op ∈ ops) => trivial) _)
  exact ⟨_, by decide, by decide, by decide, (run_registry_inStep (created_fresh codec) hrun).1⟩

end Session

end Multiplex

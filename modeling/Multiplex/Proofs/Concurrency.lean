import Multiplex.Proofs.IoSteps
import Multiplex.Proofs.Execution

/-! How many exchanges run. More of them run only where an admission is on record, and an admission is made only by a
connection that is ready and below its limit, on a stopped loop too, where observers may ask for more in the middle of
an operation. -/
namespace Multiplex

open Bytes Wire

theorem Entry.IsPlainLine.lawful {admission : Bool → Nat → Nat → Prop} {e : Entry} (h : e.IsPlainLine) :
    e.Lawful True admission := by
  obtain ⟨l, rfl, -⟩ := h
  exact fun _ => trivial

namespace Session

variable {κ τ ω σ : Type} [Codec κ] [Transport τ] {w : Surroundings κ τ ω σ} {s s' u s₀ : Session κ τ ω σ} {x : Stream}
  {act : Metadata → Turn κ → Turn κ} {p : κ → Prop}

structure Records (w : Surroundings κ τ ω σ) (entry : Entry) (s s' : Session κ τ ω σ) : Prop where
  transition : Transition w s s'
  recorded : ∃ made, s'.history = made ++ s.history ∧ entry ∈ made

theorem Takes.accounted (h : Takes s x u act) :
    Accounted (Entry.Lawful True s.Admits) s (u.turned (act u.metadata (u.turnOf x))) := by
  have hbefore : Accounted (Entry.Lawful True s.Admits) s u := by
    cases h with
    | start hcan => exact accounted_popped hcan _ _
    | head | data => exact .of_extends (.cons trivial .refl) (Nat.le_refl _)
    | window => exact .refl s
  exact hbefore.trans (.of_extends (h.prompt.continues.history.imp fun _ => Entry.OfTurn.lawful) (Nat.le_refl _))

theorem Transition.accounted (h : Transition w s s') : Accounted (Entry.Lawful True s.Admits) s s' := by
  have hlines : ∀ {h h' : History}, h.Extends Entry.IsPlainLine h' → h.Extends (Entry.Lawful True s.Admits) h' :=
    fun hh => hh.imp fun _ => Entry.IsPlainLine.lawful
  cases h with
  | close h => exact h.accounted.trans (.of_extends (.cons trivial .refl) (Nat.le_refl _))
  | lose | gate => exact .of_extends .refl (Nat.le_refl _)
  | clear => exact .of_extends .refl (Nat.zero_le _)
  | atomic h =>
    cases h with
    | lines hh => exact .of_extends (hlines hh) (Nat.le_refl _)
    | refuse _ _ _ hh | dismiss _ _ _ _ _ hh => exact .of_extends (.cons trivial (hlines hh)) (Nat.le_refl _)
    | turn h => exact h.accounted
    | leave id => exact .of_extends .refl (Registry.active_remove_le _ _)
    | @report x registry hd hx =>
      have hactive := Registry.active_remove_le s.registry x.id
      rw [hx] at hactive
      exact .of_extends .refl hactive
    | @conclude e body reason causes history hs he hopen hv hb hh =>
      have hdispatched := (History.Extends.cons trivial .refl).trans (hlines hh)
      exact .of_extends (.cons trivial hdispatched) (Registry.active_remove_le _ _)
    | stray id bytes length hs hn hh =>
      have hdispatched := (History.Extends.cons trivial .refl).trans (hlines hh)
      exact .of_extends (.cons trivial hdispatched) (Nat.le_refl _)
    | notify | observe | hold | drift | stop | queue | drop | acknowledged | certified | drain | blame =>
      exact .of_extends .refl (Nat.le_refl _)
    | inline => exact .of_extends (.cons (fun _ => trivial) .refl) (Nat.le_refl _)
    | twice => exact .of_extends (.cons (fun _ => trivial) .refl) (Nat.le_refl _)
    | pass | receive | write | farewell | ask | announce => exact .of_extends (.cons trivial .refl) (Nat.le_refl _)
    | establish => exact .of_extends (.cons trivial (.cons (fun _ => trivial) .refl)) (Nat.le_refl _)

omit [Transport τ] in
theorem Prompt.keeps (hp : Codec.Keeps p) (ha : s.Prompt x act) (ht : p s.codec) :
    p (act s.metadata (s.turnOf x)).codec := by
  cases ha with
  | start =>
    by_cases hs : x.state = .pending
    · exact Turn.keeps_initiate hp hs ht
    · rw [show (s.turnOf x).initiate s.metadata = (s.turnOf x).warnStray _ from if_pos hs]
      exact ht
  | window => exact (Turn.steps_receiveWindowUpdate (m := s.metadata) _).keeps hp ht
  | head fields => exact (Turn.steps_receiveHeaders (m := s.metadata) _ fields).keeps hp ht
  | data bytes length => exact (Turn.steps_receiveData (m := s.metadata) _ bytes length).keeps hp ht

theorem Transition.keeps (hp : Codec.Keeps p) (hreceive : ∀ c bytes, p c → p (Codec.receive c bytes).2)
    (haround : ∀ u d, w.around u d → p d.codec) (h : Transition w s s') (ht : p s.codec) : p s'.codec := by
  have hturn : ∀ {x u act}, Takes s x u act → p (act u.metadata (u.turnOf x)).codec := by
    intro x u act h
    refine h.prompt.keeps hp ?_
    rw [h.before_eq]
    exact ht
  cases h with
  | close h => exact hturn h
  | lose | clear | gate => exact ht
  | atomic h =>
    cases h with
    | turn h => exact hturn h
    | drift d hd => exact haround s d hd
    | receive => exact hreceive _ _ ht
    | drain => exact hp.takeOutput _ ht
    | write => exact hp.takeOutput _ ht
    | establish => exact hp.initiate _ _ ht
    | farewell => exact hp.close _ _ ht
    | stray => exact hp.acknowledge _ _ _ ht
    | _ => exact ht

/-- Every entry of a run is made by one of its transitions, as that transition makes entries, and whatever every call on
the codec keeps holds there. -/
theorem Transitions.accounted (hp : Codec.Keeps p) (hreceive : ∀ c bytes, p c → p (Codec.receive c bytes).2)
    (haround : ∀ u d, w.around u d → p d.codec) (h : Transitions w s s') (ht : p s.codec) :
    Accounted (fun e => ∃ u u', Transitions w s u ∧ Records w e u u' ∧ Transitions w u' s' ∧ p u.codec ∧
      e.Lawful True u.Admits) s s' ∧ p s'.codec := by
  induction h with
  | refl => exact ⟨.refl s, ht⟩
  | @tail u u' hbefore hlast ih =>
    obtain ⟨haccount, hkept⟩ := ih
    obtain ⟨made, hmade, hlawful, hactive⟩ := hlast.accounted
    refine ⟨.trans (haccount.imp ?_) ⟨made, hmade, fun e he => ?_, hactive⟩,
      hlast.keeps hp hreceive haround hkept⟩
    · rintro e ⟨v, v', hv, hrecords, hv', hrest⟩
      exact ⟨v, v', hv, hrecords, hv'.tail hlast, hrest⟩
    · exact ⟨u, u', hbefore, ⟨hlast, made, hmade, he⟩, .refl, hkept, hlawful e he⟩

theorem Sheltered.execution {may : Demand τ ω → Prop} {around : Session κ τ ω σ → Drift κ τ ω σ → Prop}
    (h : Sheltered may around s s') (hi : s.Intact) : Execution ⟨may, around, True⟩ nobody s s' := by
  induction h with
  | refl s => exact .refl s
  | meet _ r _ d hd ih ihr =>
    have hbefore := ih hi
    exact hbefore.trans (execution_meet ⟨hbefore.intact hi, Or.inr fun o news u hu => ihr o news u hu⟩ hd)
  | drift _ d hd ih => exact (ih hi).trans (.atomic (.drift d hd))
  | stop _ ih => exact (ih hi).trans (.atomic (.stop _ trivial))

/-- While a demand is met no more exchanges come to run than ran before, or than the limit allowed. Each admission is
made by a transition from a state in which the connection is ready and below the limit of that moment, so a limit that
was lowered holds back admissions until enough exchanges have left. -/
theorem run_concurrency (h₀ : Created s₀) (h : FreeRun s₀ s) (r : Reaction κ τ ω σ)
    (hr : ∀ o news u, FreeRun u (r.run o news u)) (d : Demand τ ω) :
    ∃ new, (s.meet r d).history = new ++ s.history ∧
      (∀ ticket ready active limit, .admitted ticket ready active limit ∈ new →
        ∃ u u', Transitions .any s u ∧ Records .any (.admitted ticket ready active limit) u u' ∧
          Transitions .any u' (s.meet r d) ∧ u.Admits ready active limit) ∧
      (∀ most, (∀ ticket ready active limit, .admitted ticket ready active limit ∈ new → limit ≤ most) →
        (s.meet r d).registry.active ≤ max s.registry.active most) ∧
      ∀ (p : κ → Prop) (most : UInt32), Codec.Keeps p → (∀ c bytes, p c → p (Codec.receive c bytes).2) →
        (∀ o news u, Sheltered (fun _ => True) (fun _ d => p d.codec) u (r.run o news u)) → p s.codec →
        (∀ c, p c → min (Codec.localLimit c) (Codec.remoteLimit c) = most) →
        (s.meet r d).registry.active ≤ max s.registry.active most.toNat := by
  have hi := (h.execution h₀.intact).intact h₀.intact
  -- The first bounds hold in any surroundings. The last one needs surroundings that keep the property of the codec.
  have hmet : ∀ {around : Session κ τ ω σ → Drift κ τ ω σ → Prop},
      (∀ o news u, Sheltered (fun _ => True) around u (r.run o news u)) →
        Transitions ⟨fun _ => True, around, True⟩ s (s.meet r d) := fun hr =>
    (((Sheltered.refl s).meet r hr d trivial).execution hi).transitions hi
  obtain ⟨new, hnew, hlawful, hactive⟩ := (Transitions.accounted Codec.keeps_true (fun _ _ => id) (fun _ _ => id)
    (hmet fun o news u => (hr o news u).sheltered) trivial).1
  refine ⟨new, hnew, ?_, ?_, ?_⟩
  · intro ticket ready active limit hmem
    obtain ⟨u, u', hu, hrecords, hu', -, hadmits⟩ := hlawful _ hmem
    exact ⟨u, u', hu, hrecords, hu', hadmits⟩
  · intro most hmost
    refine hactive most fun ticket ready active limit hmem => ?_
    obtain ⟨u, u', -, -, -, -, hadmits⟩ := hlawful _ hmem
    exact Nat.le_trans (Admits.active_le hadmits) (hmost ticket ready active limit hmem)
  · intro p most hp hreceive hrun ht hmost
    obtain ⟨new', -, hlawful', hactive'⟩ :=
      (Transitions.accounted hp hreceive (fun _ _ hd => hd) (hmet hrun) ht).1
    refine hactive' _ fun ticket ready active limit hmem => ?_
    obtain ⟨u, u', -, -, -, hkept, hadmits⟩ := hlawful' _ hmem
    have hlimit : limit = most.toNat := hadmits.allowed.trans (congrArg UInt32.toNat (hmost _ hkept))
    exact hlimit ▸ Admits.active_le hadmits

/-- Two exchanges run where only one may any more. One of them ends, and its observer, told at once, asks for yet
another. -/
theorem run_concurrency_scripted :
    ∃ (s : Session Scripted.Codec Scripted.Transport Unit Unit) (r : Reaction Scripted.Codec Scripted.Transport Unit Unit)
      (d : Demand Scripted.Transport Unit), s.loop.stopped = true ∧ s.registry.active = 2 ∧ s.registry.pendingCount = 1 ∧
        s.streamLimit = 1 ∧ (s.meet r d).registry.pendingCount = 2 ∧
        (s.meet r d).registry.active ≤ max s.registry.active 1 := by
  let request : Request := { url := ascii "https://example.com/" }
  let codec : Scripted.Codec := { localLimit := 2, arrival := .events [{ body := .settingsAcknowledged }] }
  let still : Reaction Scripted.Codec Scripted.Transport Unit Unit := ⟨fun _ _ s => s⟩
  let r : Reaction Scripted.Codec Scripted.Transport Unit Unit :=
    ⟨fun _ _ s => s.meet still (.operation (.submit request))⟩
  let ops : List (Operation Scripted.Transport Unit) :=
    [.established (some {}), .bytesReceived [], .submit request, .submit request, .submit request, .observe 0 ()]
  let lowered : Drift Scripted.Codec Scripted.Transport Unit Unit :=
    .scripted { localLimit := 2, remoteLimit := 1, arrival := .events [{ stream := 1, body := .ended }] }
  let s := (({ fresh codec with loop := (fresh codec).loop.stop } : Session Scripted.Codec Scripted.Transport Unit
    Unit).performAll still ops).drift lowered
  have hrun : FreeRun (fresh codec) s := ((Activity.refl (fresh codec)).stop.trans (Activity.performAll (r := still)
    (fun _ _ u => .refl u) (fun op (_ : op ∈ ops) => trivial) _)).drift lowered
  have hr : ∀ o news u, FreeRun u (r.run o news u) := fun _ _ u =>
    (Activity.refl u).meet still (fun _ _ v => .refl v) (.operation (.submit request)) trivial
  obtain ⟨_, -, -, -, hcap⟩ :=
    run_concurrency (created_fresh codec) hrun r hr (.operation (.bytesReceived []))
  have hbound := hcap _ 1 (keeps_scripted 2 1) keeps_receive_scripted
    (fun _ _ u => (Sheltered.refl u).meet still (fun _ _ v => .refl v) (.operation (.submit request)) trivial)
    ⟨rfl, rfl⟩ fun c hc => by
      rw [hc.1, hc.2]
      rfl
  exact ⟨s, r, .operation (.bytesReceived []), by decide +kernel, by decide +kernel, by decide +kernel,
    by decide +kernel, by decide +kernel, hbound⟩

end Session

end Multiplex

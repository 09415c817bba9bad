import Multiplex.Proofs.Execution
import Multiplex.Proofs.Upload

/-! The exchanges of a connection live such lives, on any loop: what the connection does to one of them is a turn, and
what it does besides puts no part of its request on record. So every exchange of a run delivers its request. -/
namespace Multiplex

open Bytes Wire

def Entry.Aside (e : Entry) : Prop := ∀ id, ¬e.Sends id

theorem Entry.IsPlainLine.aside {e : Entry} (h : e.IsPlainLine) : e.Aside := by
  obtain ⟨l, rfl, -⟩ := h
  exact fun _ => id

theorem Entry.OfTurn.id_of_sends {id other : UInt32} {e : Entry} (h : e.OfTurn id) (hs : e.Sends other) :
    other = id := by
  unfold Entry.Sends at hs
  split at hs
  · exact hs.symm.trans h
  · exact hs.symm.trans h
  · exact hs.elim

namespace Session

variable {κ τ ω σ : Type} {s s' u : Session κ τ ω σ} {x : Stream}

structure SendsNothing (s s' : Session κ τ ω σ) : Prop where
  inPlay : ∀ x ∈ s'.inPlay, x ∈ s.inPlay
  nextId : s'.nextId = s.nextId
  history : s.history.Extends Entry.Aside s'.history

variable [Codec κ]

/-- Every exchange in play has lived a life from its making on, and no part of a request is on record under an id that
is not given out yet. -/
structure Lives (s : Session κ τ ω σ) : Prop where
  lives : ∀ x ∈ s.inPlay, ∃ t₀, Turn.Unstarted t₀ ∧ Turn.Life t₀ (s.turnOf x)
  issued : ∀ e ∈ s.history, ∀ id, e.Sends id → id < s.nextId

theorem life_turnOf (hh : s.history.Extends (fun e => ¬e.Sends x.id) s'.history) :
    Turn.Life (s.turnOf x) (s'.turnOf x) := by
  obtain ⟨new, hnew, haside⟩ := hh
  have h := Turn.Happens.elsewhere (s.turnOf x) s'.codec none haside
  rw [show new ++ (s.turnOf x).history = s'.history from hnew.symm] at h
  exact .single h

theorem Lives.of_sendsNothing (hl : s.Lives) (h : SendsNothing s s') : s'.Lives := by
  constructor
  case lives =>
    intro x hx
    obtain ⟨t₀, h₀, hlife⟩ := hl.lives x (h.inPlay x hx)
    exact ⟨t₀, h₀, hlife.trans (life_turnOf (h.history.imp fun _ haside => haside _))⟩
  case issued =>
    obtain ⟨new, hnew, haside⟩ := h.history
    intro e he id hsends
    rw [hnew] at he
    rw [h.nextId]
    exact hl.issued e ((List.mem_append.1 he).resolve_left fun he => haside e he id hsends) id hsends

theorem Lives.queued (hl : s.Lives) (request : Request) (hopen : s.refusal = none) : (s.queued request).Lives := by
  have hgrow : s.nextId < (s.queued request).nextId := nextId_lt_next hopen
  constructor
  case lives =>
    intro x hx
    rcases List.mem_cons.1 ((inPlay_queued request s).mem_iff.1 hx) with rfl | hx
    · let made := s.turnOf (Stream.new s.nextId s.completions.length request s.metadata)
      refine ⟨made, ⟨⟨_, _, _, _, rfl⟩, fun e he hs => ?_⟩, .single (.perform made s.metadata .markPending)⟩
      exact UInt32.lt_irrefl _ (hl.issued e he _ hs)
    · exact hl.lives x hx
  case issued => exact fun e he id hs => UInt32.lt_trans (hl.issued e he id hs) hgrow

variable [Transport τ] {w : Surroundings κ τ ω σ} {act : Metadata → Turn κ → Turn κ}

theorem Takes.operation (h : Takes s x u act) : ∃ op, ∀ m t, act m t = Turn.perform m op t := by
  cases h with
  | start => exact ⟨.initiate, fun _ _ => rfl⟩
  | head fields => exact ⟨.receiveHeaders fields, fun _ _ => rfl⟩
  | data bytes length => exact ⟨.receiveData bytes length, fun _ _ => rfl⟩
  | window => exact ⟨.receiveWindowUpdate, fun _ _ => rfl⟩

theorem Takes.sendsNothing (h : Takes s x u act) (hi : s.Intact) : SendsNothing s u := by
  obtain ⟨hplay, -, -, hnext, -⟩ := h.before hi
  refine ⟨fun _ hx => hplay ▸ hx, hnext, ?_⟩
  cases h with
  | start => exact .cons (fun _ => id) (.cons (fun _ => id) .refl)
  | head | data => exact .cons (fun _ => id) .refl
  | window => exact .refl

/-- A turn of one exchange is a turn in its life, and nothing to the others. -/
theorem Takes.lives (h : Takes s x u act) (hi : s.Intact) (hl : s.Lives) :
    (u.turned (act u.metadata (u.turnOf x))).Lives := by
  have hlu := hl.of_sendsNothing (h.sendsNothing hi)
  obtain ⟨-, -, htidy, -⟩ := h.before hi
  have hx := h.mem_before hi
  have hcontinues := h.prompt.continues
  constructor
  case lives =>
    intro y hy
    rcases (mem_inPlay_turned htidy hx hcontinues.ticket).1 hy with rfl | ⟨hold, hne⟩
    · obtain ⟨t₀, h₀, hlife⟩ := hlu.lives x hx
      obtain ⟨op, hop⟩ := h.operation
      have hturn : Turn.Life (u.turnOf x) (act u.metadata (u.turnOf x)) := by
        rw [hop]
        exact .single (.perform _ _ op)
      exact ⟨t₀, h₀, (hlife.trans hturn).tail (.elsewhere _ _ none fun _ he => absurd he List.not_mem_nil)⟩
    · obtain ⟨t₀, h₀, hlife⟩ := hlu.lives y hold
      refine ⟨t₀, h₀, hlife.trans (life_turnOf (hcontinues.history.imp fun e he hsends => hne ?_))⟩
      exact htidy.eq_of_id hold hx (he.id_of_sends hsends)
  case issued =>
    obtain ⟨new, hnew, hof⟩ := hcontinues.history
    intro e he id hs
    change e ∈ (act u.metadata (u.turnOf x)).history at he
    rw [hnew] at he
    rcases List.mem_append.1 he with he | he
    · rw [(hof e he).id_of_sends hs]
      exact htidy.fresh x hx
    · exact hlu.issued e he id hs

theorem Transition.lives (h : Transition w s s') (hi : s.Intact) (hl : s.Lives) : s'.Lives := by
  have hsame : s'.inPlay = s.inPlay → s'.nextId = s.nextId → s.history.Extends Entry.Aside s'.history → s'.Lives :=
    fun hplay hnext hh => hl.of_sendsNothing ⟨fun _ hx => hplay ▸ hx, hnext, hh⟩
  have hlines : ∀ {h h' : History}, h.Extends Entry.IsPlainLine h' → h.Extends Entry.Aside h' :=
    fun hh => hh.imp fun _ => Entry.IsPlainLine.aside
  cases h with
  | close h => exact (h.lives hi hl).of_sendsNothing ⟨fun _ hx => hx, rfl, .cons (fun _ => id) .refl⟩
  | lose | gate => exact hsame rfl rfl .refl
  | clear => exact hl.of_sendsNothing ⟨fun _ hx => List.mem_append_right _ hx, rfl, .refl⟩
  | atomic h =>
    cases h with
    | turn h => exact h.lives hi hl
    | queue request _ hopen => exact hl.queued request hopen
    | lines hh => exact hsame rfl rfl (hlines hh)
    | refuse _ _ _ hh => exact hsame rfl rfl (.cons (fun _ => id) (hlines hh))
    | dismiss _ _ _ _ _ hh => exact hsame rfl rfl (.cons (fun _ => id) (hlines hh))
    | leave => exact hl.of_sendsNothing ⟨fun _ hx => mem_inPlay_removed hx, rfl, .refl⟩
    | report _ hx =>
      refine hl.of_sendsNothing ⟨fun y hy => ?_, rfl, .refl⟩
      split at hy
      · exact (clerical_detach hx).inPlay.subset hy
      · exact (clerical_remove hx).inPlay.subset hy
    | drop =>
      exact hl.of_sendsNothing
        ⟨fun y hy => ((List.Subperm.refl _).append List.filter_sublist.subperm).subset hy, rfl, .refl⟩
    | conclude _ _ _ _ _ hh =>
      have hdispatched := (History.Extends.cons (fun _ => id) .refl).trans (hlines hh)
      exact hl.of_sendsNothing ⟨fun _ hx => mem_inPlay_removed hx, rfl, .cons (fun _ => id) hdispatched⟩
    | stray _ _ _ _ _ hh =>
      have hdispatched := (History.Extends.cons (fun _ => id) .refl).trans (hlines hh)
      exact hsame rfl rfl (.cons (fun _ => id) hdispatched)
    | notify | observe | hold | drift | stop | acknowledged | certified | drain | blame => exact hsame rfl rfl .refl
    | inline | twice | pass | receive | write | farewell | ask | announce =>
      exact hsame rfl rfl (.cons (fun _ => id) .refl)
    | establish => exact hsame rfl rfl (.cons (fun _ => id) (.cons (fun _ => id) .refl))

theorem Transitions.lives (h : Transitions w s s') (hi : s.Intact) (hl : s.Lives) : s'.Lives := by
  induction h with
  | refl => exact hl
  | tail hbefore hlast ih => exact hlast.lives (Transitions.intact hbefore hi) ih

omit [Transport τ] in
theorem Created.lives (h : Created s) : s.Lives := by
  obtain ⟨-, -, -, hhistory, -⟩ := h.fields
  constructor
  case lives =>
    rw [h.inPlay]
    exact fun x hx => absurd hx List.not_mem_nil
  case issued =>
    rw [hhistory]
    exact fun e he => absurd he List.not_mem_nil

variable {s₀ : Session κ τ ω σ}

/-- Whatever is asked of an exchange, and however its codec changes in between, it delivers its request, and no sending
takes more rounds than there are bytes left. Every exchange of a run, registered or going on off the register, is such
an exchange. -/
theorem run_upload (h₀ : Created s₀) (h : FreeRun s₀ s) :
    (∀ t₀ t : Turn κ, t₀.Unstarted → Turn.Life t₀ t → t₀.Delivers t) ∧
    (∀ (m : Metadata) (t : Turn κ), (t.sendBody m).rounds ≤ t.rounds + t.stream.unsent.length) ∧
    ∀ x ∈ s.inPlay, ∃ t₀, Turn.Unstarted t₀ ∧ Turn.Life t₀ (s.turnOf x) := by
  refine ⟨fun t₀ t hmade hlife => hlife.delivers hmade, Turn.rounds_sendBody, ?_⟩
  exact (Transitions.lives (h.transitions h₀.intact) h₀.intact h₀.lives).lives

/-- An upload that is held up three times: by the window, by a window below zero and by frames without room. -/
theorem run_upload_scripted :
    ∃ (s : Session Scripted.Codec Scripted.Transport Unit Unit) (x : Stream) (t₀ : Turn Scripted.Codec),
      x ∈ s.inPlay ∧ t₀.Unstarted ∧ Turn.Life t₀ (s.turnOf x) ∧ t₀.Delivers (s.turnOf x) ∧
        x.state = .halfClosed ∧ s.history.sent x.id = ascii "hello world" ∧ (s.turnOf x).rounds = 3 := by
  let request : Request := { url := ascii "https://example.com/", body := ascii "hello world" }
  let r : Reaction Scripted.Codec Scripted.Transport Unit Unit := ⟨fun _ _ s => s⟩
  let s₀ : Session Scripted.Codec Scripted.Transport Unit Unit :=
    fresh { defaultWindow := 4, maxFrame := 3, arrival := .events [{ body := .settingsAcknowledged }] }
  let update (window : Int32) (maxFrame : UInt32) (stream : UInt32)
      (s : Session Scripted.Codec Scripted.Transport Unit Unit) :=
    (s.drift (.scripted { defaultWindow := window, maxFrame, arrival := .events [{ stream, body := .windowUpdated }] }))
      |>.perform r (.bytesReceived [])
  have hr : ∀ o news u, FreeRun u (r.run o news u) := fun _ _ u => .refl u
  have hupdate : ∀ window maxFrame stream s, FreeRun s (update window maxFrame stream s) := fun _ _ _ s =>
    ((Activity.refl s).drift _).meet r hr (.operation (.bytesReceived [])) trivial
  let started := s₀.performAll r [.established (some {}), .bytesReceived [], .submit request]
  let s := update 100 16 1 (update 100 0 0 (update (-5) 3 1 started))
  have hrun : FreeRun s₀ s := (Activity.performAll hr (fun _ _ => trivial) s₀).trans
    (((hupdate (-5) 3 1 started).trans (hupdate 100 0 0 _)).trans (hupdate 100 16 1 _))
  have hone : s.inPlay.map (fun x => (x.state, s.history.sent x.id, (s.turnOf x).rounds)) =
      [(.halfClosed, ascii "hello world", 3)] := by decide +kernel
  obtain ⟨hdelivers, -, hlives⟩ := run_upload (created_fresh _) hrun
  obtain ⟨x, hx, heq⟩ := List.mem_map.1 (hone ▸ List.mem_singleton_self _)
  rw [Prod.mk.injEq, Prod.mk.injEq] at heq
  obtain ⟨t₀, hmade, hlife⟩ := hlives x hx
  exact ⟨s, x, t₀, hx, hmade, hlife, hdelivers t₀ _ hmade hlife, heq⟩

end Session

end Multiplex

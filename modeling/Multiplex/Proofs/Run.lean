import Multiplex.Proofs.Paths
import Multiplex.Scripted.Transport

/-! Runs of a connection on a loop that takes tasks: operations in any order, and between them whatever happens to the
codec, the transport, the clock and the loop. Every operation is a path of moves, so what moves keep holds in every
state of a run. -/
namespace Multiplex.Session

open Bytes Wire

variable {κ τ ω σ : Type}

inductive Operation (τ ω : Type) where
  | submit (request : Request)
  | observe (ticket : Ticket) (observer : ω)
  | established (transport : Option τ)
  | handshakeCompleted
  | bytesReceived (data : Bytes)
  | idleTimeout
  | checkIdle
  | transportLost (cause : Option Fault)
  | discard

/-- What happens around a connection between two operations. -/
structure Drift (κ τ ω σ : Type) where
  codec : κ
  transport : τ → τ
  clock : UInt64
  program : σ
  queue : List (Notice ω)
  lossObservers : List ω → List ω

def drift (d : Drift κ τ ω σ) (s : Session κ τ ω σ) : Session κ τ ω σ :=
  { s with
    codec := d.codec
    transport := s.transport.map d.transport
    clock := d.clock
    program := d.program
    loop := { s.loop with queue := d.queue }
    lossNotice := s.lossNotice.map fun c => { c with observers := d.lossObservers c.observers } }

/-- The state in which a run begins. That the loop is running then leaves nothing out, by `exists_created`. -/
def Created (s : Session κ τ ω σ) : Prop :=
  ∃ base codec loop options lossNotice clock program, loop.stopped = false ∧
    (create base (some codec) (some loop) options lossNotice clock program :
      History × Except Fault (Session κ τ ω σ)).2 = .ok s

theorem create_stop (base : Bytes) (codec : κ) (loop : Loop (Notice ω)) (options : Options)
    (lossNotice : Option (Completion ω (List Fault))) (clock : UInt64) (program : σ) :
    (create base (some codec) (some loop.stop) options lossNotice clock program :
        History × Except Fault (Session κ τ ω σ)).2 =
      (create base (some codec) (some loop) options lossNotice clock program).2.map
        fun s => { s with loop := s.loop.stop } := by
  unfold create
  dsimp only
  split <;> rfl

/-- A connection made on a loop that has stopped already is one whose loop stops before anything is asked. -/
theorem exists_created {base : Bytes} {codec : κ} {loop : Loop (Notice ω)} {options : Options}
    {lossNotice : Option (Completion ω (List Fault))} {clock : UInt64} {program : σ} {s : Session κ τ ω σ}
    (h : (create base (some codec) (some loop) options lossNotice clock program :
      History × Except Fault (Session κ τ ω σ)).2 = .ok s) :
    ∃ s₀, Created s₀ ∧ (s = s₀ ∨ s = { s₀ with loop := s₀.loop.stop }) := by
  obtain ⟨queue, stopped⟩ := loop
  cases stopped with
  | false => exact ⟨s, ⟨base, codec, ⟨queue, false⟩, options, lossNotice, clock, program, rfl, h⟩, Or.inl rfl⟩
  | true =>
    have hstop := (create_stop base codec ⟨queue, false⟩ options lossNotice clock program).symm.trans h
    cases hs₀ : (create base (some codec) (some ⟨queue, false⟩) options lossNotice clock program :
        History × Except Fault (Session κ τ ω σ)).2 with
    | error =>
      rw [hs₀] at hstop
      cases hstop
    | ok s₀ =>
      rw [hs₀] at hstop
      cases hstop
      exact ⟨s₀, ⟨base, codec, ⟨queue, false⟩, options, lossNotice, clock, program, rfl, hs₀⟩, Or.inr rfl⟩

variable [Codec κ] [Transport τ]

def perform (r : Reaction κ τ ω σ) (op : Operation τ ω) (s : Session κ τ ω σ) : Session κ τ ω σ :=
  match op with
  | .submit request => (s.submit r request).2
  | .observe ticket observer => s.observe r ticket observer
  | .established transport => s.established r transport
  | .handshakeCompleted => s.handshakeCompleted r
  | .bytesReceived data => s.bytesReceived r data
  | .idleTimeout => s.idleTimeout r
  | .checkIdle => (s.checkIdle r).2
  | .transportLost cause => s.transportLost r cause
  | .discard => s.discard r

inductive Step : Session κ τ ω σ → Session κ τ ω σ → Prop
  | perform (s : Session κ τ ω σ) (r : Reaction κ τ ω σ) (op : Operation τ ω) : Step s (s.perform r op)
  | drift (s : Session κ τ ω σ) (d : Drift κ τ ω σ) : Step s (s.drift d)

abbrev Run : Session κ τ ω σ → Session κ τ ω σ → Prop := Relation.ReflTransGen Step

variable {s₀ s s' : Session κ τ ω σ}

inductive Prelude : Session κ τ ω σ → Session κ τ ω σ → Prop
  | nothing (s : Session κ τ ω σ) : Prelude s s
  | queue {s : Session κ τ ω σ} (request : Request) (h : s.refusal = none) : Prelude s (s.queued request)
  | connect {s : Session κ τ ω σ} (t : τ) (hl : s.lost = false) :
      Prelude s { s with transport := some t, idle := s.idle.start s.clock, metadata.peer := Transport.peer t }

theorem Prelude.path (h : Prelude s s') : Path s s' := by
  cases h with
  | nothing => exact .refl
  | queue request h => exact .single (.queue request h)
  | connect t hl => exact .single (.establish t hl)

omit [Codec κ] in
theorem Prelude.history (h : Prelude s s') : s'.history = s.history := by
  cases h <;> rfl

theorem eventless_perform (r : Reaction κ τ ω σ) (op : Operation τ ω) (hop : ∀ data, op ≠ .bytesReceived data)
    (hc : s.Coupled none) : ∃ u, Prelude s u ∧ EventlessPath u (s.perform r op) := by
  cases op with
  | submit request =>
    cases h : s.refusal with
    | none => exact ⟨_, .queue request h, eventless_submit_of_taken r request hc h⟩
    | some cause => exact ⟨s, .nothing s, eventless_submit_of_refused r request hc h⟩
  | established transport =>
    rcases established_cases r transport s with ⟨level, message, h⟩ | ⟨t, hl, h⟩
    · rw [perform, h]
      exact ⟨s, .nothing s, .note s level message⟩
    · have hopened : (s.opening t).Coupled none := Path.coupled (path_opening t hl) hc
      rw [perform, h]
      exact ⟨_, .connect t hl, (eventless_opening t hl).trans (eventless_flush r hopened)⟩
  | bytesReceived data => exact absurd rfl (hop data)
  | observe ticket observer => exact ⟨s, .nothing s, eventless_observe r ticket observer hc⟩
  | handshakeCompleted => exact ⟨s, .nothing s, eventless_handshakeCompleted r hc⟩
  | idleTimeout => exact ⟨s, .nothing s, eventless_idleTimeout r hc⟩
  | checkIdle => exact ⟨s, .nothing s, eventless_checkIdle r hc⟩
  | transportLost cause => exact ⟨s, .nothing s, eventless_transportLost hc r cause⟩
  | discard => exact ⟨s, .nothing s, eventless_discard r hc⟩

theorem segments_perform (r : Reaction κ τ ω σ) (op : Operation τ ω) (hc : s.Coupled none) :
    ∃ u, Prelude s u ∧ Segments u (s.perform r op) := by
  by_cases hop : ∀ data, op ≠ .bytesReceived data
  · obtain ⟨u, hprelude, hafter⟩ := eventless_perform r op hop hc
    exact ⟨u, hprelude, hafter.segments⟩
  · push Not at hop
    obtain ⟨data, rfl⟩ := hop
    exact ⟨s, .nothing s, segments_bytesReceived r data hc⟩

theorem path_perform (r : Reaction κ τ ω σ) (op : Operation τ ω) (hc : s.Coupled none) : Path s (s.perform r op) := by
  obtain ⟨u, hprelude, hsegments⟩ := segments_perform r op hc
  exact hprelude.path.trans (Segments.path hsegments)

omit [Codec κ] [Transport τ] in
theorem Created.fields (h : Created s) : s.loop.stopped = false ∧ s.registry = {} ∧ s.completions = [] ∧
    s.history = [] ∧ s.detached = [] ∧ s.nextId = 1 ∧ s.lost = false ∧ s.transport = none ∧ s.acknowledged = false ∧
    s.admitting = false := by
  obtain ⟨base, codec, loop, options, lossNotice, clock, program, hl, hs⟩ := h
  unfold create at hs
  dsimp only at hs
  split at hs
  · cases hs
  · cases hs
    exact ⟨hl, rfl, rfl, rfl, rfl, rfl, rfl, rfl, rfl, rfl⟩

omit [Codec κ] [Transport τ] in
theorem Created.coupled (h : Created s) : s.Coupled none := by
  obtain ⟨hlive, hregistry, hcompletions, hhistory, hdetached, hnext, hlost, -⟩ := h.fields
  constructor
  · exact hlive
  · exact hdetached
  · rw [hregistry]
    exact Registry.Ordered.empty
  · rw [hregistry]
    exact fun _ he => absurd he List.not_mem_nil
  · rw [hregistry]
    exact fun _ he => absurd he List.not_mem_nil
  · rw [hnext]
    decide
  · rw [hregistry, hhistory, values, hcompletions]
    exact Owes.nothing
  · rw [hlost]
    exact fun hl => Bool.noConfusion hl
  · rw [hlost]
    exact fun hl => Bool.noConfusion hl

theorem Step.coupled (h : Step s s') (hc : s.Coupled none) : s'.Coupled none := by
  cases h with
  | perform r op => exact (path_perform r op hc).coupled hc
  | drift d => exact hc.quiet ⟨rfl, rfl, rfl, rfl, id, rfl, rfl, .refl⟩

theorem Run.coupled (h : Run s s') (hc : s.Coupled none) : s'.Coupled none := by
  induction h with
  | refl => exact hc
  | tail _ hstep ih => exact hstep.coupled ih

def performAll (r : Reaction κ τ ω σ) (ops : List (Operation τ ω)) (s : Session κ τ ω σ) : Session κ τ ω σ :=
  ops.foldl (fun s op => s.perform r op) s

theorem run_performAll (r : Reaction κ τ ω σ) (ops : List (Operation τ ω)) (s : Session κ τ ω σ) :
    Run s (s.performAll r ops) := by
  unfold performAll
  induction ops generalizing s with
  | nil => exact .refl
  | cons op ops ih => exact (ih (s.perform r op)).head (.perform s r op)

/-! A connection that is not yet established. -/

def exampleUrl : Url := { scheme := ascii "https", host := ascii "example.com", port := 443, path := ascii "/" }

def fresh (codec : κ) : Session κ Scripted.Transport Unit Unit where
  codec := codec
  program := ()
  metadata := { baseUrl := exampleUrl, maxSize := ({} : Options).maxSize, warnSize := ({} : Options).warnSize }
  idle := { timeout := ({} : Options).idleTimeout }

def Drift.scripted (codec : κ) : Drift κ Scripted.Transport Unit Unit :=
  { codec, transport := id, clock := 0, program := (), queue := [], lossObservers := id }

omit [Codec κ] in
theorem created_noticed (codec : κ) (lossNotice : Option (Completion Unit (List Fault))) :
    Created { fresh codec with lossNotice } := by
  refine ⟨ascii "https://example.com", codec, {}, {}, lossNotice, 0, (), rfl, ?_⟩
  have hbase : Url.parse (ascii "https://example.com") = .ok exampleUrl := by decide
  unfold create
  rw [hbase]
  rfl

omit [Codec κ] in
theorem created_fresh (codec : κ) : Created (fresh codec) := created_noticed codec none

theorem keeps_script {p : Scripted.Codec → Prop}
    (hscript : ∀ c headers data resets output, p c →
      p ({ c with headers, data, resets, output } : Scripted.Codec))
    (hsent : ∀ c id length, Scripted.Codec.fits c id length = true → p c →
      p (c.setWindow id (c.window id - Int32.ofNat length))) : Codec.Keeps p where
  takeOutput := fun c h => hscript c c.headers c.data c.resets _ h
  initiate := fun c _ h => hscript c c.headers c.data c.resets _ h
  close := fun c _ h => hscript c c.headers c.data c.resets _ h
  sendHeaders := by
    intro c id fields endStream h
    dsimp only [Codec.sendHeaders]
    split <;> exact hscript c _ c.data c.resets _ h
  sendData := by
    intro c id bytes endStream h
    let c' : Scripted.Codec := { c with data := c.data.next.2 }
    have hc' : p c' := hscript c c.headers _ c.resets c.output h
    dsimp only [Codec.sendData]
    split
    · rw [if_neg (show Scripted.Codec.tooLarge ≠ 0 by decide)]
      exact hc'
    · rename_i hfull
      split
      · rename_i hret
        have hfits : c'.fits id bytes.length = true := by simpa [hret] using hfull
        exact hscript _ c'.headers c'.data c'.resets _ (hsent c' id bytes.length hfits hc')
      · exact hc'
  reset := by
    intro c id code h
    dsimp only [Codec.reset]
    split <;> exact hscript c c.headers c.data _ _ h
  acknowledge := fun _ _ _ h => h

theorem keeps_scripted (l m : UInt32) :
    Codec.Keeps fun c : Scripted.Codec => Codec.localLimit c = l ∧ Codec.remoteLimit c = m :=
  keeps_script (fun _ _ _ _ _ h => h) fun _ _ _ _ h => h

theorem keeps_receive_scripted {l m : UInt32} (c : Scripted.Codec) (bytes : Bytes)
    (h : Codec.localLimit c = l ∧ Codec.remoteLimit c = m) :
    Codec.localLimit (Codec.receive c bytes).2 = l ∧ Codec.remoteLimit (Codec.receive c bytes).2 = m := by
  dsimp only [Codec.receive]
  split <;> exact h

/-! How requests are settled. -/

omit [Codec κ] [Transport τ] in
theorem peek_eq_some_iff {ticket : Ticket} {outcome : Outcome} :
    s.peek ticket = some outcome ↔ s.values[ticket]? = some (some outcome) := by
  unfold peek values
  rw [List.getElem?_map]
  cases s.completions[ticket]? with
  | none => simp
  | some c => simp

omit [Codec κ] [Transport τ] in
theorem peek_eq_none_iff {ticket : Ticket} (ht : ticket < s.completions.length) :
    s.peek ticket = none ↔ s.values[ticket]? = some none := by
  unfold peek values
  rw [List.getElem?_map, List.getElem?_eq_getElem ht]
  simp

/-- Every request has its outcome once, and has none exactly as long as its exchange is registered. -/
structure Accountable (s : Session κ τ ω σ) : Prop where
  distinct : (s.registry.snapshot.map (·.ticket)).Nodup
  once : ∀ ticket, s.history.countP (Entry.settles ticket) ≤ 1
  open_iff : ∀ ticket < s.completions.length,
    s.peek ticket = none ↔ ∃ stream ∈ s.registry.snapshot, stream.ticket = ticket
  given_iff : ∀ ticket outcome, s.peek ticket = some outcome ↔ .settled ticket outcome ∈ s.history

omit [Codec κ] [Transport τ] in
theorem Coupled.accountable (h : s.Coupled none) : s.Accountable where
  distinct := h.owes.distinct
  once := h.owes.once
  open_iff := by
    intro ticket ht
    rw [peek_eq_none_iff ht, ← h.owes.unresolved, Registry.tickets, List.mem_map]
  given_iff := by
    intro ticket outcome
    rw [peek_eq_some_iff, h.owes.resolved]

/-- No result was given twice, and none will be as long as nobody else gives the notice of a loss. -/
structure Unrepeated (s : Session κ τ ω σ) : Prop where
  silent : ∀ line, .log line ∈ s.history → line.source ≠ ascii "Completion"
  notice : ¬s.Preempted

theorem Move.unrepeated (h : Move s s') (hc : s.Coupled none) (hu : s.Unrepeated) : s'.Unrepeated := by
  refine ⟨?_, fun hp => hu.notice (h.preempted hc hp)⟩
  obtain ⟨new, hnew, hlawful, -⟩ := h.accounted hc
  rw [hnew]
  intro line hline
  rcases List.mem_append.1 hline with hline | hline
  · exact fun hs => hu.notice (hlawful _ hline hs)
  · exact hu.silent line hline

theorem Path.unrepeated (h : Path s s') (hc : s.Coupled none) (hu : s.Unrepeated) : s'.Unrepeated := by
  induction h with
  | refl => exact hu
  | tail hpath hmove ih => exact hmove.unrepeated (Path.coupled hpath hc) ih

theorem Step.unrepeated (h : Step s s') (hc : s.Coupled none) (hu : s.Unrepeated) : s'.Unrepeated := by
  cases h with
  | perform r op => exact (path_perform r op hc).unrepeated hc hu
  | drift d =>
    refine ⟨hu.silent, fun hp => hu.notice ⟨hp.1, ?_⟩⟩
    obtain ⟨c, hc, hf⟩ := hp.2
    obtain ⟨c', hc', rfl⟩ := Option.map_eq_some_iff.1 hc
    exact ⟨c', hc', hf⟩

theorem Run.unrepeated (h : Run s s') (hc : s.Coupled none) (hu : s.Unrepeated) : s'.Unrepeated := by
  induction h with
  | refl => exact hu
  | tail hrun hstep ih => exact hstep.unrepeated (Run.coupled hrun hc) ih

theorem Step.lasting (h : Step s s') (hc : s.Coupled none) : Lasting s s' := by
  cases h with
  | perform r op => exact (path_perform r op hc).lasting hc
  | drift d =>
    refine ⟨id, id, fun ht => Or.inl ?_, Nat.le_refl _⟩
    change (s.transport.map d.transport).isSome = true
    rwa [Option.isSome_map]

theorem Step.suffix (h : Step s s') (hc : s.Coupled none) : s.history <:+ s'.history := by
  cases h with
  | perform r op => exact (path_perform r op hc).suffix hc
  | drift d => exact List.suffix_rfl

theorem Run.lasting (h : Run s s') (hc : s.Coupled none) : Lasting s s' := by
  induction h with
  | refl => exact .refl s
  | tail hrun hstep ih => exact ih.trans (hstep.lasting (Run.coupled hrun hc))

theorem Run.suffix (h : Run s s') (hc : s.Coupled none) : s.history <:+ s'.history := by
  induction h with
  | refl => exact List.suffix_rfl
  | tail hrun hstep ih => exact ih.trans (hstep.suffix (Run.coupled hrun hc))

theorem lost_transportLost (hc : s.Coupled none) (r : Reaction κ τ ω σ) (cause : Option Fault) :
    (s.transportLost r cause).lost = true := by
  cases hl : s.lost with
  | true => exact (Path.lasting (eventless_transportLost hc r cause).path hc).lost hl
  | false =>
    obtain ⟨_, _, _, -, -, -, hlost⟩ := transportLost_eq hc hl r cause
    rw [hlost]
    rfl

theorem lost_discard (hc : s.Coupled none) (r : Reaction κ τ ω σ) : (s.discard r).lost = true := by
  unfold discard
  split
  · assumption
  · exact lost_transportLost hc.withoutTransport r none

theorem ticket_submit (r : Reaction κ τ ω σ) (request : Request) (s : Session κ τ ω σ) :
    (s.submit r request).1 = s.completions.length := by
  unfold submit
  dsimp only
  split
  · rfl
  · split
    · rfl
    · rfl

theorem ticket_lt_submit (hc : s.Coupled none) (r : Reaction κ τ ω σ) (request : Request) :
    (s.submit r request).1 < (s.submit r request).2.completions.length := by
  rw [ticket_submit]
  cases h : s.refusal with
  | some cause =>
    obtain ⟨message, hsubmit⟩ := submit_of_refused r request h
    obtain ⟨history, notices, -, hfinish⟩ := (Path.coupled (Path.note s .warn message) hc).refuse_eq r
      request cause
    rw [hsubmit, hfinish]
    change s.completions.length < ((s.completions ++ [_]).set _ _).length
    rw [List.length_set, List.length_append]
    exact Nat.lt_succ_self _
  | none =>
    have hlater := Path.lasting (eventless_submit_of_taken r request hc h).path (hc.queued request h)
    have hissued : (s.queued request).completions.length = s.completions.length + 1 := by
      rw [queued, List.length_append]
      rfl
    exact Nat.lt_of_lt_of_le (hissued ▸ Nat.lt_succ_self _) hlater.tickets

/-- Every request is settled exactly once, and is open exactly as long as its exchange is registered. Once the
connection is lost, and it is when its owner drops it, nothing is registered and nothing is open any more. -/
theorem run_settlement (h₀ : Created s₀) (h : Run s₀ s) :
    s.Accountable ∧
    (¬s₀.Preempted → ∀ line, .log line ∈ s.history → line.source ≠ ascii "Completion") ∧
    (∀ r request, (s.submit r request).1 = s.completions.length ∧
      (s.submit r request).1 < (s.submit r request).2.completions.length) ∧
    (∀ r, (s.discard r).lost = true) ∧
    ∀ s', Run s s' → s.completions.length ≤ s'.completions.length ∧
      (∀ ticket outcome, s.peek ticket = some outcome → s'.peek ticket = some outcome) ∧
      (s.lost = true → s'.lost = true ∧ s'.registry.entries = [] ∧
        ∀ ticket < s'.completions.length, (s'.peek ticket).isSome = true) := by
  have hc := h.coupled h₀.coupled
  refine ⟨hc.accountable, ?_, ?_, lost_discard hc, ?_⟩
  · intro hnotice
    have hstart : s₀.Unrepeated := ⟨by rw [h₀.fields.2.2.2.1]; simp, hnotice⟩
    exact (h.unrepeated h₀.coupled hstart).silent
  · exact fun r request => ⟨ticket_submit r request s, ticket_lt_submit hc r request⟩
  · intro s' h'
    have hc' := h'.coupled hc
    refine ⟨(h'.lasting hc).tickets, ?_, ?_⟩
    · intro ticket outcome hpeek
      have hrecord := (hc.accountable.given_iff ticket outcome).1 hpeek
      exact (hc'.accountable.given_iff ticket outcome).2 ((h'.suffix hc).subset hrecord)
    · intro hl
      have hlost := (h'.lasting hc).lost hl
      have hempty := hc'.empty hlost
      refine ⟨hlost, hempty, ?_⟩
      -- Without an exchange nobody is waited for, and the register of a lost connection is empty.
      intro ticket ht
      rw [Option.isSome_iff_ne_none]
      intro hopen
      obtain ⟨stream, hstream, -⟩ := (hc'.accountable.open_iff ticket ht).1 hopen
      rw [Registry.snapshot, hempty] at hstream
      exact absurd hstream List.not_mem_nil

theorem run_settlement_scripted :
    ∃ s : Session Scripted.Codec Scripted.Transport Unit Unit, s.completions.length = 2 ∧ s.lost = true ∧
      s.Accountable ∧ s.registry.entries = [] ∧ (∀ ticket < 2, (s.peek ticket).isSome = true) ∧
      ∀ line, .log line ∈ s.history → line.source ≠ ascii "Completion" := by
  let request : Request := { url := ascii "https://example.com/" }
  let codec : Scripted.Codec := { localLimit := 1, arrival := .events [{ body := .settingsAcknowledged }] }
  let ops : List (Operation Scripted.Transport Unit) :=
    [.established (some {}), .bytesReceived [], .submit request, .submit request, .discard]
  have hnotice : ¬(fresh codec).Preempted := by
    rintro ⟨-, c, hc, -⟩
    cases hc
  have hend : ∀ s, Run (fresh codec) s → s.completions.length = 2 → s.lost = true → s.Accountable ∧
      s.registry.entries = [] ∧ (∀ ticket < 2, (s.peek ticket).isSome = true) ∧
      ∀ line, .log line ∈ s.history → line.source ≠ ascii "Completion" := by
    intro s hrun hlength hlost
    obtain ⟨haccountable, hsilent, -, -, hlater⟩ := run_settlement (created_fresh codec) hrun
    obtain ⟨-, hempty, hsettled⟩ := (hlater s .refl).2.2 hlost
    rw [hlength] at hsettled
    exact ⟨haccountable, hempty, hsettled, hsilent hnotice⟩
  have hrun := run_performAll ⟨fun _ _ s => s⟩ ops (fresh codec)
  have hlength : ((fresh codec).performAll ⟨fun _ _ s => s⟩ ops).completions.length = 2 := by decide
  have hlost : ((fresh codec).performAll ⟨fun _ _ s => s⟩ ops).lost = true := by decide
  exact ⟨_, hlength, hlost, hend _ hrun hlength hlost⟩

end Multiplex.Session

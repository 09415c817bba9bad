import Multiplex.Proofs.IoSteps

/-! What the codec produces and what the transport is handed. Every operation ends with nothing left in the codec,
unless the connection is lost; and what the transport is handed is what the codec produced, byte for byte and in that
order. -/
namespace Multiplex

open Bytes Wire

def Entry.parcel : Entry → Option Bytes
  | .call (.write bytes _) => some bytes
  | _ => none

theorem Entry.Internal.parcel {e : Entry} (h : e.Internal) : e.parcel = none := by
  unfold Entry.parcel
  split
  · exact h.elim
  · rfl

namespace History

variable {h h' : History}

def handedOver (h : History) : Bytes := (h.select Entry.parcel).flatten

theorem handedOver_cons_write (bytes : Bytes) (ret : Int32) (h : History) :
    handedOver (.call (.write bytes ret) :: h) = h.handedOver ++ bytes := by
  unfold handedOver
  rw [select_cons, List.flatten_append]
  exact congrArg (_ ++ ·) (List.append_nil bytes)

theorem Extends.handedOver_eq (hh : h.Extends (·.parcel = none) h') : h'.handedOver = h.handedOver :=
  congrArg List.flatten (hh.select_eq fun _ he => he)

end History

namespace Codec

variable {κ : Type} [Wire.Codec κ]

def waiting (c : κ) : Bytes := (Wire.Codec.takeOutput c).1

def Produces (produced : κ → Bytes) (c c' : κ) : Prop :=
  ∃ new, produced c' = produced c ++ new ∧ waiting c' = waiting c ++ new

/-- It is known what a codec has produced so far. A call on it may produce more, and only taking the output ends its
waiting. -/
structure Accounts (produced : κ → Bytes) : Prop where
  receive : ∀ c data, Produces produced c (Wire.Codec.receive c data).2
  initiate : ∀ c settings, Produces produced c (Wire.Codec.initiate c settings)
  close : ∀ c code, Produces produced c (Wire.Codec.close c code)
  headers : ∀ c id fields endStream, Produces produced c (Wire.Codec.sendHeaders c id fields endStream).2
  data : ∀ c id bytes endStream, Produces produced c (Wire.Codec.sendData c id bytes endStream).2
  reset : ∀ c id code, Produces produced c (Wire.Codec.reset c id code).2
  acknowledge : ∀ c length id, Produces produced c (Wire.Codec.acknowledge c length id)
  taken : ∀ c, produced (Wire.Codec.takeOutput c).2 = produced c ∧ waiting (Wire.Codec.takeOutput c).2 = []

variable {produced : κ → Bytes} {c c' c'' : κ}

theorem Produces.refl (produced : κ → Bytes) (c : κ) : Produces produced c c :=
  ⟨[], (List.append_nil _).symm, (List.append_nil _).symm⟩

theorem Produces.trans (h : Produces produced c c') (h' : Produces produced c' c'') : Produces produced c c'' := by
  obtain ⟨new, hproduced, hwaiting⟩ := h
  obtain ⟨new', hproduced', hwaiting'⟩ := h'
  refine ⟨new ++ new', ?_, ?_⟩
  · rw [hproduced', hproduced, List.append_assoc]
  · rw [hwaiting', hwaiting, List.append_assoc]

theorem Called.produces (hp : Accounts produced) (h : Called c c') : Produces produced c c' := by
  cases h with
  | close code => exact hp.close c code
  | headers id fields endStream => exact hp.headers c id fields endStream
  | data id bytes endStream => exact hp.data c id bytes endStream
  | reset id code => exact hp.reset c id code
  | acknowledge length id => exact hp.acknowledge c length id

theorem Works.produces (hp : Accounts produced) (h : Works c c') : Produces produced c c' := by
  induction h with
  | refl => exact .refl produced c
  | tail _ hcalled ih => exact ih.trans (hcalled.produces hp)

end Codec

namespace Session

variable {κ τ ω σ : Type} [Codec κ] {s₀ s s' u : Session κ τ ω σ} {r : Reaction κ τ ω σ} {produced : κ → Bytes}

/-- What is produced on the way is handed to the transport behind what waited before, or waits itself. -/
def Carries (produced : κ → Bytes) (s s' : Session κ τ ω σ) : Prop :=
  ∃ new, produced s'.codec = produced s.codec ++ new ∧
    s'.history.handedOver ++ Codec.waiting s'.codec = s.history.handedOver ++ Codec.waiting s.codec ++ new

theorem Carries.trans (h : Carries produced s u) (h' : Carries produced u s') : Carries produced s s' := by
  obtain ⟨new, hproduced, hcarried⟩ := h
  obtain ⟨new', hproduced', hcarried'⟩ := h'
  refine ⟨new ++ new', ?_, ?_⟩
  · rw [hproduced', hproduced, List.append_assoc]
  · rw [hcarried', hcarried, List.append_assoc]

theorem Carries.of_same (hproduced : produced s'.codec = produced s.codec)
    (hcarried : s'.history.handedOver ++ Codec.waiting s'.codec = s.history.handedOver ++ Codec.waiting s.codec) :
    Carries produced s s' :=
  ⟨[], hproduced.trans (List.append_nil _).symm, hcarried.trans (List.append_nil _).symm⟩

theorem Carries.refl (produced : κ → Bytes) (s : Session κ τ ω σ) : Carries produced s s := .of_same rfl rfl

theorem Carries.produce (hcodec : Codec.Produces produced s.codec s'.codec)
    (hh : s.history.Extends (·.parcel = none) s'.history) : Carries produced s s' := by
  obtain ⟨new, hproduced, hwaiting⟩ := hcodec
  refine ⟨new, hproduced, ?_⟩
  rw [hwaiting, hh.handedOver_eq, List.append_assoc]

theorem Carries.drain (hp : Codec.Accounts produced) (hempty : Codec.waiting s.codec = []) :
    Carries produced s s.drained := by
  obtain ⟨hproduced, hwaiting⟩ := hp.taken s.codec
  exact .of_same hproduced (congrArg (s.history.handedOver ++ ·) (hwaiting.trans hempty.symm))

theorem Carries.write [Transport τ] (hp : Codec.Accounts produced) (s : Session κ τ ω σ) (t : τ) :
    Carries produced s (s.written t) := by
  obtain ⟨hproduced, hwaiting⟩ := hp.taken s.codec
  refine .of_same hproduced ?_
  rw [show Codec.waiting (s.written t).codec = [] from hwaiting, List.append_nil]
  exact History.handedOver_cons_write _ _ _

/-- What is handed over and what waits is the latest of what was produced. -/
theorem Carries.latest (h : Carries produced s s')
    (hs : s.history.handedOver ++ Codec.waiting s.codec <:+ produced s.codec) :
    s'.history.handedOver ++ Codec.waiting s'.codec <:+ produced s'.codec := by
  obtain ⟨new, hproduced, hcarried⟩ := h
  obtain ⟨dropped, hdropped⟩ := hs
  refine ⟨dropped, ?_⟩
  rw [hproduced, hcarried, ← hdropped, List.append_assoc dropped]

def LeavesOutput (produced : κ → Bytes) (s : Session κ τ ω σ) (d : Drift κ τ ω σ) : Prop :=
  produced d.codec = produced s.codec ∧ Codec.waiting d.codec = Codec.waiting s.codec

variable [Transport τ] {may : Demand τ ω → Prop} {around : Session κ τ ω σ → Drift κ τ ω σ → Prop}

theorem Carries.open (hp : Codec.Accounts produced) (s : Session κ τ ω σ) (t : τ) : Carries produced s (s.opening t) :=
  .produce (hp.initiate s.codec s.options.settings) (.cons rfl (.cons rfl .refl))

/-! What each step keeps. -/

theorem IoStep.parcels (h : IoStep may around s s') : s.history.Extends (·.parcel = none) s'.history ∨
    ∃ t, s.transport = some t ∧ (Codec.takeOutput s.codec).1.isEmpty = false ∧ s' = s.written t := by
  cases h with
  | internal h => exact Or.inl (h.history.imp fun _ => Entry.Internal.parcel)
  | receive | ask => exact Or.inl (.cons rfl .refl)
  | drain | lose | drift | stop => exact Or.inl .refl
  | write hout ht => exact Or.inr ⟨_, ht, hout, rfl⟩
  | establish => exact Or.inl (.cons rfl (.cons rfl .refl))

theorem IoStep.connected (h : IoStep may around s s') (hl : s'.lost = false) (ht : s.transport ≠ none) :
    s'.transport ≠ none := by
  cases h with
  | internal h => exact h.transport ▸ ht
  | receive | drain | stop => exact ht
  | write | establish | ask => exact Option.some_ne_none _
  | lose => exact Bool.noConfusion (show true = false from hl)
  | drift => exact fun hnone => ht (Option.map_eq_none_iff.1 hnone)

/-- What is produced is carried over, unless there is no transport to hand it to. -/
theorem IoStep.carries (hp : Codec.Accounts produced) (h : IoStep may (LeavesOutput produced) s s')
    (hl : s'.lost = false) :
    Carries produced s s' ∨ s.transport = none ∧ s' = s.drained := by
  cases h with
  | internal h => exact Or.inl (.produce (h.codec.produces hp) (h.history.imp fun _ => Entry.Internal.parcel))
  | receive data => exact Or.inl (.produce (hp.receive s.codec data) (.cons rfl .refl))
  | drain hnowhere =>
    -- Output is dropped only if there is nowhere to send it, and this is the one exception.
    rcases hnowhere with hempty | hnone | hlost
    · exact Or.inl (.drain hp (List.isEmpty_iff.1 hempty))
    · exact Or.inr ⟨hnone, rfl⟩
    · exact Bool.noConfusion (hl.symm.trans hlost)
  | write => exact Or.inl (.write hp s _)
  | establish t => exact Or.inl (.open hp s t)
  | ask => exact Or.inl (.produce (.refl produced _) (.cons rfl .refl))
  | lose => exact Bool.noConfusion (show true = false from hl)
  | drift d hd => exact Or.inl (.of_same hd.1 (congrArg (s.history.handedOver ++ ·) hd.2))
  | stop => exact Or.inl (.refl produced s)

theorem IoSteps.carries (hp : Codec.Accounts produced) (h : IoSteps may (LeavesOutput produced) s s')
    (hl : s'.lost = false) (ht : s.transport ≠ none) : s'.transport ≠ none ∧ Carries produced s s' := by
  induction h with
  | refl => exact ⟨ht, .refl produced s⟩
  | tail _ hstep ih =>
    obtain ⟨ht', hcarries⟩ := ih (IoSteps.not_lost (.single hstep) hl)
    exact ⟨hstep.connected hl ht', hcarries.trans ((hstep.carries hp hl).resolve_right fun h => ht' h.1)⟩

/-- Nothing empty is handed over, and what is handed over or waits is the latest of what was produced: what was produced
before there was a transport is dropped. -/
structure Balanced (produced : κ → Bytes) (s : Session κ τ ω σ) : Prop where
  filled : ∀ bytes ret, .call (.write bytes ret) ∈ s.history → bytes ≠ []
  latest : s.lost = false → s.history.handedOver ++ Codec.waiting s.codec <:+ produced s.codec
  unconnected : s.lost = false → s.transport = none → s.history.handedOver = []
  unopened : (∀ settings, .call (.initiate settings) ∉ s.history) → s.transport = none ∧ s.history.handedOver = []

theorem IoStep.balanced (hp : Codec.Accounts produced) (h : IoStep may (LeavesOutput produced) s s')
    (hs : s.Balanced produced) : s'.Balanced produced where
  filled := by
    intro bytes ret hm
    rcases h.parcels with ⟨new, hnew, hnone⟩ | ⟨t, -, hout, rfl⟩
    · rw [hnew, List.mem_append] at hm
      exact hs.filled bytes ret (hm.resolve_left fun hm => Option.some_ne_none bytes (hnone _ hm))
    · rcases List.mem_cons.1 hm with heq | hm
      · cases heq
        exact fun hnil => Bool.eq_false_iff.1 hout (List.isEmpty_iff.2 hnil)
      · exact hs.filled bytes ret hm
  latest := by
    intro hl
    have hopen := IoSteps.not_lost (.single h) hl
    rcases h.carries hp hl with hcarries | ⟨hnone, rfl⟩
    · exact hcarries.latest (hs.latest hopen)
    · have hnothing : s.drained.history.handedOver ++ Codec.waiting s.drained.codec = [] :=
        List.append_eq_nil_iff.2 ⟨hs.unconnected hopen hnone, (hp.taken s.codec).2⟩
      rw [hnothing]
      exact List.nil_suffix
  unconnected := by
    intro hl hnone
    have hopen := IoSteps.not_lost (.single h) hl
    have hbefore : s.transport = none := by
      by_contra ht
      exact h.connected hl ht hnone
    rcases h.parcels with hrecord | ⟨t, ht, -, -⟩
    · exact hrecord.handedOver_eq.trans (hs.unconnected hopen hbefore)
    · exact absurd (hbefore.symm.trans ht) nofun
  unopened := by
    intro hnone
    obtain ⟨htransport, hnothing⟩ := hs.unopened fun settings hm => hnone settings (h.suffix.subset hm)
    cases h with
    | internal h =>
      have hparcels := (h.history.imp fun _ => Entry.Internal.parcel).handedOver_eq
      exact ⟨h.transport.trans htransport, hparcels.trans hnothing⟩
    | receive data =>
      have hparcels : s.history.Extends (·.parcel = none) (s.received data).history := .cons rfl .refl
      exact ⟨htransport, hparcels.handedOver_eq.trans hnothing⟩
    | drain | stop => exact ⟨htransport, hnothing⟩
    | drift d => exact ⟨congrArg (Option.map d.transport) htransport, hnothing⟩
    | establish t => exact absurd List.mem_cons_self (hnone s.options.settings)
    | lose _ _ ht => exact ⟨ht.elim (·.trans htransport) id, hnothing⟩
    | write _ ht | ask _ _ ht => exact absurd (htransport.symm.trans ht) nofun

theorem IoSteps.balanced (hp : Codec.Accounts produced) (h : IoSteps may (LeavesOutput produced) s s')
    (hs : s.Balanced produced) : s'.Balanced produced := by
  induction h with
  | refl => exact hs
  | tail _ hstep ih => exact hstep.balanced hp ih

/-! Operations leave nothing behind. -/

def Drained (s : Session κ τ ω σ) : Prop := s.lost = false → Codec.waiting s.codec = []

omit [Transport τ] in
theorem Drained.of_same (h : s.Drained) (hlost : s'.lost = s.lost) (hcodec : s'.codec = s.codec) : s'.Drained := by
  unfold Drained
  rw [hlost, hcodec]
  exact h

omit [Transport τ] in
theorem drained_of_lost (h : s.lost = true) : s.Drained := fun hl => Bool.noConfusion (hl.symm.trans h)

end Session

def Reaction.Drains {κ τ ω σ : Type} [Codec κ] (r : Reaction κ τ ω σ) : Prop :=
  ∀ o news (s : Session κ τ ω σ), s.Drained → (r.run o news s).Drained

namespace Session

variable {κ τ ω σ : Type} [Codec κ] {s₀ s s' u : Session κ τ ω σ} {r : Reaction κ τ ω σ} {produced : κ → Bytes}

theorem Drained.tell (hd : r.Drains) (n : Notice ω) (h : s.Drained) : (s.tell r n).Drained := by
  unfold Session.tell
  split
  · exact h.of_same rfl rfl
  · exact hd _ _ _ (h.of_same rfl rfl)

theorem Drained.tellAll (hd : r.Drains) (os : List ω) (news : News) (h : s.Drained) :
    (s.tellAll r os news).Drained := by
  unfold Session.tellAll
  induction os generalizing s with
  | nil => exact h
  | cons o os ih => exact ih (h.tell hd _)

theorem Drained.finish (hd : r.Drains) (x : Stream) (reason : CloseReason) (causes : List Fault) (h : s.Drained) :
    (s.finish r x reason causes).Drained := by
  obtain ⟨history, -, ⟨-, hfinish⟩ | ⟨-, hfinish⟩⟩ := finish_cases r x reason causes s
  · rw [hfinish]
    exact h.of_same rfl rfl
  · rw [hfinish]
    rcases settle_cases r x.ticket (x.outcome s.metadata reason causes) ({ s with history } : Session κ τ ω σ) with
      ⟨-, hsettle | hsettle⟩ | ⟨os, -, hsettle⟩
    · rw [hsettle]
      exact h.of_same rfl rfl
    · rw [hsettle]
      exact h.of_same rfl rfl
    · rw [hsettle]
      exact Drained.tellAll hd os _ (h.of_same rfl rfl)

theorem Drained.observe (hd : r.Drains) (ticket : Ticket) (o : ω) (h : s.Drained) :
    (s.observe r ticket o).Drained := by
  unfold Session.observe
  split
  · exact h
  · split
    · exact h.of_same rfl rfl
    · exact h.tell hd _

theorem Drained.letGo (ticket : Ticket) (h : s.Drained) : (s.letGo ticket).Drained := by
  unfold Session.letGo
  dsimp only
  split
  · exact h.of_same rfl rfl
  · split
    · exact h.of_same rfl rfl
    · unfold giveUp
      split <;> exact h.of_same rfl rfl

variable [Transport τ] {may : Demand τ ω → Prop} {around : Session κ τ ω σ → Drift κ τ ω σ → Prop}

theorem lost_discard_of_byIoSteps (hr : r.ByIoSteps may around) (s : Session κ τ ω σ) : (s.discard r).lost = true := by
  unfold discard
  split
  · assumption
  · exact lost_transportLost_of_byIoSteps hr none _

theorem Drained.loseWith (hr : r.ByIoSteps may around) (fault : Fault) (h : s.Drained) :
    (s.loseWith r fault).Drained := by
  cases hl : s.lost with
  | true =>
    rw [show s.loseWith r fault = s.note .debug _ from if_pos hl]
    exact h.of_same rfl rfl
  | false =>
    cases hc : s.closing with
    | true =>
      rw [loseWith_again hl hc]
      exact h.of_same rfl rfl
    | false =>
      cases ht : s.transport with
      | none =>
        rw [loseWith_absent hl hc ht]
        exact drained_of_lost (lost_transportLost_of_byIoSteps hr none _)
      | some t =>
        rw [loseWith_asked hl hc ht]
        split
        · exact h.of_same rfl rfl
        · exact drained_of_lost (lost_transportLost_of_byIoSteps hr none _)
        · exact drained_of_lost (lost_transportLost_of_byIoSteps hr _ _)

theorem drained_flush (hp : Codec.Accounts produced) (hr : r.ByIoSteps may around) (s : Session κ τ ω σ) :
    (s.flush r).Drained := by
  have htaken : Codec.waiting (Codec.takeOutput s.codec).2 = [] := (hp.taken s.codec).2
  have hdrained : s.drained.Drained := fun _ => htaken
  have hwritten : ∀ t, (s.written t).Drained := fun _ _ => htaken
  rcases flush_cases r s with ⟨-, h | ⟨message, h⟩⟩ | ⟨t, -, -, -, h | ⟨message, cause, h⟩⟩
  · rw [h]
    exact hdrained
  · rw [h]
    exact hdrained.of_same rfl rfl
  · rw [h]
    exact hwritten t
  · rw [h]
    exact Drained.loseWith hr cause ((hwritten t).of_same rfl rfl)

theorem Drained.submit (hp : Codec.Accounts produced) (hr : r.ByIoSteps may around) (hd : r.Drains) (request : Request)
    (h : s.Drained) : (s.submit r request).2.Drained := by
  cases hrefusal : s.refusal with
  | some cause =>
    obtain ⟨message, hrefused⟩ := submit_of_refused r request hrefusal
    rw [hrefused]
    exact Drained.finish hd _ _ _ (h.of_same rfl rfl)
  | none =>
    have hissuable : s.issueTicket.2.refusal = none := hrefusal
    unfold Session.submit
    dsimp only
    rw [hissuable]
    dsimp only
    split
    · exact Drained.finish hd _ _ _ (h.of_same rfl rfl)
    · exact (drained_flush hp hr _).letGo _

theorem Drained.established (hp : Codec.Accounts produced) (hr : r.ByIoSteps may around) (transport : Option τ)
    (h : s.Drained) : (s.established r transport).Drained := by
  rcases established_cases r transport s with ⟨level, message, hnoted⟩ | ⟨t, -, hopened⟩
  · rw [hnoted]
    exact h.of_same rfl rfl
  · rw [hopened]
    exact drained_flush hp hr _

theorem Drained.handshakeCompleted (hr : r.ByIoSteps may around) (h : s.Drained) :
    (s.handshakeCompleted r).Drained := by
  unfold Session.handshakeCompleted
  split
  · exact h
  · dsimp only
    split
    · exact h
    · exact Drained.loseWith hr _ (h.of_same rfl rfl)

theorem Drained.bytesReceived (hp : Codec.Accounts produced) (hr : r.ByIoSteps may around) (data : Bytes)
    (h : s.Drained) :
    (s.bytesReceived r data).Drained := by
  unfold Session.bytesReceived
  split
  · exact h.of_same rfl rfl
  · dsimp only
    split
    · exact drained_flush hp hr _
    · exact (drained_flush hp hr _).loseWith hr _

theorem Drained.idleTimeout (hp : Codec.Accounts produced) (hr : r.ByIoSteps may around) (h : s.Drained) :
    (s.idleTimeout r).Drained := by
  unfold Session.idleTimeout
  split
  · exact h
  · exact (drained_flush hp hr _).loseWith hr _

theorem Drained.perform (hp : Codec.Accounts produced) (hr : r.ByIoSteps may around) (hd : r.Drains)
    (op : Operation τ ω) (h : s.Drained) : (s.perform r op).Drained := by
  cases op with
  | submit request => exact h.submit hp hr hd request
  | observe ticket observer => exact h.observe hd ticket observer
  | established transport => exact h.established hp hr transport
  | handshakeCompleted => exact h.handshakeCompleted hr
  | bytesReceived data => exact h.bytesReceived hp hr data
  | idleTimeout => exact h.idleTimeout hp hr
  | checkIdle =>
    unfold Session.perform checkIdle
    dsimp only
    split
    · exact h
    · exact h.idleTimeout hp hr
  | transportLost cause => exact drained_of_lost (lost_transportLost_of_byIoSteps hr cause s)
  | discard => exact drained_of_lost (lost_discard_of_byIoSteps hr s)

def Demand.Operates : Demand τ ω → Prop
  | .operation _ => True
  | .streamClosed _ => False

theorem Sheltered.drained (hp : Codec.Accounts produced)
    (h : Sheltered Demand.Operates (LeavesOutput produced) s s') (hs : s.Drained) : s'.Drained := by
  induction h with
  | refl => exact hs
  | meet _ r hr d hd ih ihr =>
    cases d with
    | streamClosed id => exact hd.elim
    | operation op => exact (ih hs).perform hp (fun o news u => (hr o news u).ioSteps) ihr op
  | drift _ d hd ih => exact fun hl => hd.2.trans (ih hs hl)
  | stop _ ih => exact (ih hs).of_same rfl rfl

theorem carries_established (hp : Codec.Accounts produced) (hr : r.ByIoSteps Demand.Operates (LeavesOutput produced))
    (t : τ) (hl : u.lost = false) (h : Sheltered Demand.Operates (LeavesOutput produced) (u.established r (some t)) s)
    (hopen : s.lost = false) : s.transport ≠ none ∧ Carries produced u s ∧ Codec.waiting s.codec = [] := by
  rw [established_eq r t hl] at h
  have hsteps : IoSteps Demand.Operates (LeavesOutput produced) (u.opening t) s := (ioSteps_flush hr _).trans h.ioSteps
  obtain ⟨ht, hcarries⟩ := hsteps.carries hp hopen (Option.some_ne_none t)
  exact ⟨ht, (Carries.open hp u t).trans hcarries, h.drained hp (drained_flush hp hr _) hopen⟩

/-- Between two operations nothing waits to be sent, and what was handed to the transport is the latest of what the
codec has produced; nothing, as long as none was given and the codec was not initiated. From the time when a transport
is given, it is all that the codec produces, byte for byte and in that order, behind what waited at that time: nothing,
unless an observer that was told at once gave the transport in the middle of another operation. -/
theorem run_output (hp : Codec.Accounts produced) (h₀ : Created s₀) (hfresh : Codec.waiting s₀.codec = [])
    (h : Sheltered Demand.Operates (LeavesOutput produced) s₀ s) :
    (∀ bytes ret, .call (.write bytes ret) ∈ s.history → bytes ≠ []) ∧
    ((∀ settings, .call (.initiate settings) ∉ s.history) → s.transport = none ∧ s.history.handedOver = []) ∧
    (s.lost = false → Codec.waiting s.codec = [] ∧ s.history.handedOver <:+ produced s.codec) ∧
    ∀ (r : Reaction κ τ ω σ) (t : τ) (u u' : Session κ τ ω σ),
      (∀ o news v, Sheltered Demand.Operates (LeavesOutput produced) v (r.run o news v)) → u.lost = false →
      Sheltered Demand.Operates (LeavesOutput produced) (u.established r (some t)) u' → u'.lost = false →
        u'.transport ≠ none ∧ Codec.waiting u'.codec = [] ∧ ∃ new, produced u'.codec = produced u.codec ++ new ∧
          u'.history.handedOver = u.history.handedOver ++ Codec.waiting u.codec ++ new := by
  obtain ⟨-, -, -, hhistory, -, -, -, htransport, -⟩ := h₀.fields
  have hbalanced₀ : s₀.Balanced produced := by
    constructor
    · rw [hhistory]
      exact fun _ _ hm => absurd hm List.not_mem_nil
    · rw [hhistory, hfresh]
      exact fun _ => List.nil_suffix
    · rw [hhistory]
      exact fun _ _ => rfl
    · rw [hhistory]
      exact fun _ => ⟨htransport, rfl⟩
  have hbalanced := h.ioSteps.balanced hp hbalanced₀
  refine ⟨hbalanced.filled, hbalanced.unopened, fun hl => ?_, fun r t u u' hr hl hu hl' => ?_⟩
  · have hdrained : Codec.waiting s.codec = [] := h.drained hp (fun _ => hfresh) hl
    have hlatest := hbalanced.latest hl
    rw [hdrained, List.append_nil] at hlatest
    exact ⟨hdrained, hlatest⟩
  · obtain ⟨ht, ⟨new, hproduced, hcarried⟩, hdrained⟩ :=
      carries_established hp (fun o news v => (hr o news v).ioSteps) t hl hu hl'
    rw [hdrained, List.append_nil] at hcarried
    exact ⟨ht, hdrained, new, hproduced, hcarried⟩

end Session

structure Scripted.Booked where
  codec : Codec
  booked : Bytes := []

namespace Scripted.Booked

def after (b : Booked) (c : Scripted.Codec) : Booked :=
  ⟨c, b.booked ++ (Codec.waiting c).drop (Codec.waiting b.codec).length⟩

instance : Wire.Codec Booked where
  receive b data := ((Codec.receive b.codec data).1, b.after (Codec.receive b.codec data).2)
  takeOutput b := ((Codec.takeOutput b.codec).1, { b with codec := (Codec.takeOutput b.codec).2 })
  initiate b settings := b.after (Codec.initiate b.codec settings)
  close b code := b.after (Codec.close b.codec code)
  sendHeaders b id fields endStream :=
    ((Codec.sendHeaders b.codec id fields endStream).1, b.after (Codec.sendHeaders b.codec id fields endStream).2)
  sendData b id bytes endStream :=
    ((Codec.sendData b.codec id bytes endStream).1, b.after (Codec.sendData b.codec id bytes endStream).2)
  reset b id code := ((Codec.reset b.codec id code).1, b.after (Codec.reset b.codec id code).2)
  acknowledge b length id := b.after (Codec.acknowledge b.codec length id)
  window b := Codec.window b.codec
  maxFrame b := Codec.maxFrame b.codec
  localLimit b := Codec.localLimit b.codec
  remoteLimit b := Codec.remoteLimit b.codec
  openOutbound b := Codec.openOutbound b.codec
  openInbound b := Codec.openInbound b.codec

theorem waiting_emit (c : Scripted.Codec) (bytes : Bytes) :
    Codec.waiting (c.emit bytes) = Codec.waiting c ++ bytes := by
  change (bytes :: c.output).reverse.flatten = c.output.reverse.flatten ++ bytes
  rw [List.reverse_cons, List.flatten_append, List.flatten_singleton]

theorem prefix_emit (c : Scripted.Codec) (bytes : Bytes) : Codec.waiting c <+: Codec.waiting (c.emit bytes) :=
  ⟨bytes, (waiting_emit c bytes).symm⟩

theorem produces_after (b : Booked) {c : Scripted.Codec} (h : Codec.waiting b.codec <+: Codec.waiting c) :
    Codec.Produces booked b (b.after c) := by
  obtain ⟨new, hnew⟩ := h
  refine ⟨new, ?_, hnew.symm⟩
  change b.booked ++ (Codec.waiting c).drop _ = b.booked ++ new
  rw [← hnew, List.drop_left]

theorem accounts_booked : Codec.Accounts booked where
  receive b data := by
    refine produces_after b ?_
    dsimp only [Codec.receive]
    split
    · exact List.prefix_refl _
    · exact prefix_emit _ _
  initiate b _ := produces_after b (prefix_emit _ _)
  close b _ := produces_after b (prefix_emit _ _)
  headers b _ _ _ := by
    refine produces_after b ?_
    dsimp only [Codec.sendHeaders]
    split
    · exact prefix_emit _ _
    · exact List.prefix_refl _
  data b _ _ _ := by
    refine produces_after b ?_
    dsimp only [Codec.sendData]
    split
    · split
      · exact prefix_emit _ _
      · exact List.prefix_refl _
    · split
      · exact prefix_emit _ _
      · exact List.prefix_refl _
  reset b _ _ := by
    refine produces_after b ?_
    dsimp only [Codec.reset]
    split
    · exact prefix_emit _ _
    · exact List.prefix_refl _
  acknowledge b _ _ := produces_after b (List.prefix_refl _)
  taken _ := ⟨rfl, rfl⟩

end Scripted.Booked

namespace Session

/-- A request waits for its connection, and the answer to another one is reset while a third one takes its place. -/
theorem run_output_scripted :
    ∃ (s₀ s u : Session Scripted.Booked Scripted.Transport Unit Unit)
      (r : Reaction Scripted.Booked Scripted.Transport Unit Unit) (t : Scripted.Transport), Created s₀ ∧
        Codec.Accounts Scripted.Booked.booked ∧ Codec.waiting s₀.codec = [] ∧
        Sheltered Demand.Operates (LeavesOutput Scripted.Booked.booked) s₀ s ∧ s.lost = false ∧
        Sheltered Demand.Operates (LeavesOutput Scripted.Booked.booked) (s.established r (some t)) u ∧ u.lost = false ∧
        u.transport ≠ none ∧ Codec.waiting u.codec = [] ∧
        (∃ new, u.codec.booked = s.codec.booked ++ new ∧ u.history.handedOver = s.history.handedOver ++
          Codec.waiting s.codec ++ new) ∧
        u.history.handedOver = ascii "PREFACE;HEADERS(1);RST_STREAM(1);HEADERS(3);" := by
  let r : Reaction Scripted.Booked Scripted.Transport Unit Unit := ⟨fun _ _ s => s⟩
  let t : Scripted.Transport := {}
  let request : Request := { url := ascii "https://example.com/", maxSize := 1 }
  let s₀ : Session Scripted.Booked Scripted.Transport Unit Unit := fresh { codec := { localLimit := 1 } }
  let arriving (event : Event) (u : Session Scripted.Booked Scripted.Transport Unit Unit) :
      Drift Scripted.Booked Scripted.Transport Unit Unit :=
    .scripted { u.codec with codec.arrival := .events [event] }
  let s := s₀.performAll r [.submit request, .submit request]
  let opened := s.established r (some t)
  let acknowledgement : Event := { body := .settingsAcknowledged }
  let piece : Event := { body := .data (ascii "long") 4, stream := 1 }
  let ready := (opened.drift (arriving acknowledgement opened)).perform r (.bytesReceived [])
  let u := (ready.drift (arriving piece ready)).perform r (.bytesReceived [])
  have hr : ∀ o news v, Sheltered Demand.Operates (LeavesOutput Scripted.Booked.booked) v (r.run o news v) :=
    fun _ _ v => .refl v
  have hs : Sheltered Demand.Operates (LeavesOutput Scripted.Booked.booked) s₀ s :=
    Sheltered.performAll hr (by simp [Demand.Operates]) (.refl s₀)
  have harriving : ∀ event v, LeavesOutput Scripted.Booked.booked v (arriving event v) := fun _ _ => ⟨rfl, rfl⟩
  have hready : Sheltered Demand.Operates (LeavesOutput Scripted.Booked.booked) opened ready :=
    ((Sheltered.refl opened).drift _ (harriving acknowledgement opened)).meet r hr
    (.operation (.bytesReceived [])) trivial
  have hu : Sheltered Demand.Operates (LeavesOutput Scripted.Booked.booked) opened u :=
    (hready.drift _ (harriving piece ready)).meet r hr (.operation (.bytesReceived [])) trivial
  have hopen : s.lost = false ∧ u.lost = false := by decide +kernel
  obtain ⟨-, -, -, hall⟩ := run_output Scripted.Booked.accounts_booked (created_fresh _) rfl hs
  obtain ⟨ht, hwaiting, hnew⟩ := hall r t s u hr hopen.1 hu hopen.2
  refine ⟨s₀, s, u, r, t, created_fresh _, Scripted.Booked.accounts_booked, rfl, hs, hopen.1, hu, hopen.2, ht, hwaiting,
    hnew, ?_⟩
  decide +kernel

end Session

end Multiplex

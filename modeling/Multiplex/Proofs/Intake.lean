import Mathlib.Data.List.Induction
import Multiplex.Proofs.Assembly
import Multiplex.Proofs.Field
import Multiplex.Proofs.Lifecycle

/-! What an exchange takes up in its life. As long as it runs, its response is made of the heads and the pieces of the
body that came so far and of nothing else; when it is closed as complete, its caller is told the response of that
moment. The status is kept in a 32-bit word: it is the number that the last readable status field gives, as far as that
fits. -/
namespace Multiplex

open Bytes Wire

def Entry.calling : Entry → Option Call
  | .call c => some c
  | _ => none

theorem History.Extends.calls_eq {p : Entry → Prop} {h h' : History} (hh : h.Extends p h')
    (hp : ∀ e, p e → e.calling = none) : h'.calls = h.calls := by
  have hselect : h'.select Entry.calling = h.select Entry.calling := hh.select_eq hp
  exact hselect

namespace Turn

def Operation.fields : Operation → Headers
  | .receiveHeaders fields => fields
  | _ => []

def Operation.bytes : Operation → Bytes
  | .receiveData bytes _ => bytes
  | _ => []

/-- A response is said to be complete only by a closing that is asked for. -/
theorem Operation.close_of_ended {op : Operation} {c : Closing} (hc : c ∈ op.closings) (hreason : c.reason = .ended) :
    ∃ causes announce, op = .close .ended causes announce ∧ c = ⟨.ended, causes, announce⟩ := by
  cases op with
  | close reason causes announce =>
    obtain rfl := List.mem_singleton.1 hc
    obtain rfl : reason = .ended := hreason
    exact ⟨causes, announce, rfl, rfl⟩
  | markPending => cases hc
  | initiate =>
    simp only [closings, List.mem_cons, List.not_mem_nil, or_false] at hc
    rcases hc with rfl | rfl | rfl <;> cases hreason
  | receiveHeaders | receiveData | receiveWindowUpdate =>
    obtain rfl := List.mem_singleton.1 hc
    cases hreason

variable {κ : Type} [Codec κ] {m : Metadata} {t t' : Turn κ}

/-! The limit of an exchange is set when it is made. -/

theorem maxSize_offer (t : Turn κ) : t.offer.2.stream.maxSize = t.stream.maxSize := by
  unfold offer
  dsimp only
  split <;> rfl

omit [Codec κ] in
theorem maxSize_absorb (t : Turn κ) (field : Bytes × Bytes) : (t.absorb field).stream.maxSize = t.stream.maxSize := by
  unfold absorb
  split
  · split <;> rfl
  · split <;> rfl

omit [Codec κ] in
theorem maxSize_close (t : Turn κ) (reason : CloseReason) (causes : List Fault) (announce : Bool) :
    (t.close m reason causes announce).stream.maxSize = t.stream.maxSize := by
  by_cases hs : t.stream.state = .closed
  · rw [close, if_pos hs]
    rfl
  · rw [stream_close hs]

theorem Step.maxSize {d : Direction} (h : Step m d t t') : t'.stream.maxSize = t.stream.maxSize := by
  cases h with
  | piece => exact maxSize_offer t
  | absorb field => exact maxSize_absorb t field
  | close causes => exact maxSize_close t _ causes true
  | note | complete | headReceived | expect | warned | append | acknowledge | reset => rfl

theorem Steps.maxSize {d : Direction} (h : Steps m d t t') : t'.stream.maxSize = t.stream.maxSize := by
  induction h with
  | refl => rfl
  | tail _ hstep ih => exact hstep.maxSize.trans ih

theorem maxSize_initiate (t : Turn κ) : (t.initiate m).stream.maxSize = t.stream.maxSize := by
  by_cases hs : t.stream.state = .pending
  · rcases initiate_cases (m := m) hs with ⟨message, h⟩ | ⟨url, message, -, h⟩ | ⟨url, -, h⟩
    · rw [h]
      exact maxSize_close _ _ _ _
    · rw [h]
      exact maxSize_close _ _ _ _
    · exact h.maxSize
  · rw [initiate, if_pos hs]
    rfl

theorem maxSize_perform (t : Turn κ) (op : Operation) : (t.perform m op).stream.maxSize = t.stream.maxSize := by
  cases op with
  | markPending =>
    unfold perform markPending
    dsimp only
    split <;> rfl
  | initiate => exact maxSize_initiate t
  | receiveHeaders fields => exact (steps_receiveHeaders t fields).maxSize
  | receiveData bytes length => exact (steps_receiveData t bytes length).maxSize
  | receiveWindowUpdate => exact (steps_receiveWindowUpdate t).maxSize
  | close reason causes announce => exact maxSize_close t reason causes announce

/-! The response takes up what comes. -/

theorem response_perform {op : Operation} (hfields : ∀ fields, op ≠ .receiveHeaders fields)
    (hbytes : ∀ bytes length, op ≠ .receiveData bytes length) :
    (t.perform m op).stream.response = t.stream.response := by
  cases op with
  | markPending =>
    unfold perform markPending
    dsimp only
    split <;> rfl
  | initiate => exact response_initiate
  | receiveHeaders fields => exact absurd rfl (hfields fields)
  | receiveData bytes length => exact absurd rfl (hbytes bytes length)
  | receiveWindowUpdate => exact (steps_receiveWindowUpdate t).response
  | close reason causes announce => exact response_close t reason causes announce

theorem grows_perform (op : Operation) (hs : t.stream.state ≠ .closed) :
    t.stream.response.Grows (Header.ofMessage op.fields) op.bytes (t.perform m op).stream.response := by
  cases op with
  | receiveHeaders fields => exact grows_receiveHeaders fields hs
  | receiveData bytes length => exact grows_receiveData bytes length hs
  | markPending | initiate | receiveWindowUpdate | close =>
    exact .of_eq (response_perform (fun _ => Operation.noConfusion) fun _ _ => Operation.noConfusion)

def statusWord (old : Int32) (fields : Headers) : Int32 := ((Header.lastStatus fields).map Int32.ofNat).getD old

omit [Codec κ] in
theorem status_absorb (t : Turn κ) (field : Bytes × Bytes) :
    (t.absorb field).stream.response.status = statusWord t.stream.response.status [field] := by
  unfold absorb statusWord
  rw [Header.lastStatus_singleton]
  by_cases hname : field.1 = ascii ":status"
  · rw [if_pos hname]
    cases hread : Decimal.read field.2 with
    | none =>
      have hnot : ¬Header.TellsStatus field := fun h => Decimal.read_eq_none_iff.1 hread h.2
      rw [if_neg hnot]
      rfl
    | some n =>
      obtain ⟨hreadable, rfl⟩ := Decimal.read_eq_some_iff.1 hread
      rw [if_pos ⟨hname, hreadable⟩]
      rfl
  · have hnot : ¬Header.TellsStatus field := fun h => hname h.1
    rw [if_neg hname, if_neg hnot]
    split <;> rfl

omit [Codec κ] in
theorem status_foldl_absorb (fields : Headers) (t : Turn κ) :
    (fields.foldl absorb t).stream.response.status = statusWord t.stream.response.status fields := by
  induction fields generalizing t with
  | nil => rfl
  | cons field rest ih =>
    have happend := Header.lastStatus_append [field] rest
    rw [List.singleton_append] at happend
    rw [List.foldl_cons, ih, status_absorb, statusWord, statusWord, statusWord, happend]
    cases Header.lastStatus rest <;> rfl

theorem status_perform (op : Operation) (hs : t.stream.state ≠ .closed) :
    (t.perform m op).stream.response.status = statusWord t.stream.response.status op.fields := by
  cases op with
  | receiveHeaders fields =>
    rw [perform, receiveHeaders, if_neg hs]
    dsimp only
    split
    · rw [response_checkSize]
      exact status_foldl_absorb fields t
    · exact status_foldl_absorb fields t
  | receiveData bytes length =>
    rw [perform, receiveData, if_neg hs]
    dsimp only
    rw [response_checkSize]
    split <;> rfl
  | markPending | initiate | receiveWindowUpdate | close =>
    rw [response_perform (fun _ => Operation.noConfusion) fun _ _ => Operation.noConfusion]
    rfl

end Turn

/-- A 32-bit word that keeps the status given by some fields, zero if they give none: its lowest bits are kept, and it
is the number itself exactly if that fits. -/
structure Header.KeptIn (fields : Headers) (word : Int32) : Prop where
  bits : word.toInt = Int.bmod ((lastStatus fields).getD 0) (2 ^ 32)
  exact : word.toInt = (lastStatus fields).getD 0 ↔ (lastStatus fields).getD 0 ≤ 2147483647

theorem Header.keptIn_statusWord (fields : Headers) : KeptIn fields (Turn.statusWord 0 fields) := by
  have hword : Turn.statusWord 0 fields = Int32.ofNat ((lastStatus fields).getD 0) := by
    unfold Turn.statusWord
    cases lastStatus fields <;> rfl
  have hbits : (Turn.statusWord 0 fields).toInt = Int.bmod ((lastStatus fields).getD 0) Int32.size := by
    rw [hword, Int32.toInt_ofNat']
  refine ⟨hbits, ?_⟩
  rw [hbits, Int.bmod_def, Int32.size]
  omega

structure Response.Collects (ops : List Turn.Operation) (r : Response) : Prop where
  headers : r.headers = Header.ofMessage (ops.flatMap Turn.Operation.fields)
  body : r.body = ops.flatMap Turn.Operation.bytes
  status : r.status = Turn.statusWord 0 (ops.flatMap Turn.Operation.fields)

theorem Response.collects_nil : Collects [] {} := ⟨rfl, rfl, rfl⟩

theorem Response.Collects.perform {κ : Type} [Codec κ] {m : Metadata} {t : Turn κ} {ops : List Turn.Operation}
    (h : t.stream.response.Collects ops) (op : Turn.Operation) (hs : t.stream.state ≠ .closed) :
    (t.perform m op).stream.response.Collects (ops ++ [op]) := by
  have hgrows := Turn.grows_perform (m := m) op hs
  have hstatus := Turn.status_perform (m := m) op hs
  refine ⟨?_, ?_, ?_⟩
  · rw [hgrows.headers, h.headers, List.flatMap_append, Header.ofMessage_append, List.flatMap_singleton]
  · rw [hgrows.body, h.body, List.flatMap_append, List.flatMap_singleton]
  · rw [hstatus, h.status, List.flatMap_append, List.flatMap_singleton, Turn.statusWord, Turn.statusWord,
      Turn.statusWord, Header.lastStatus_append]
    cases Header.lastStatus op.fields <;> rfl

namespace Scenario.Exchange

variable {κ : Type} {s s' s'' s₀ : State κ} {ops : List Turn.Operation} {o : Outcome}

/-! What is asked of an exchange comes to its turn and, if that ends it, to lines and news beside it. -/

theorem IsIdleLine.calling {e : Entry} (h : IsIdleLine e) : e.calling = none := by
  obtain ⟨⟨l, rfl⟩, -⟩ := h
  rfl

theorem silent_settle (o : Outcome) (s : State κ) : (settle o s).stream = s.stream ∧
    s.history.Extends (fun e => e.calling = none) (settle o s).history := by
  unfold settle
  split
  · exact ⟨rfl, .cons rfl .refl⟩
  · rename_i os completion _
    have htells := aside_foldl_tell os o { s with completion, history := .settled s.stream.ticket o :: s.history }
    have hsettled : s.history.Extends (fun e => e.calling = none) (.settled s.stream.ticket o :: s.history) :=
      .cons rfl .refl
    exact ⟨htells.stream, hsettled.trans (htells.history.imp fun _ => IsIdleLine.calling)⟩

variable [Wire.Codec κ]

theorem silent_ask (op : Turn.Operation) (s : State κ) : (ask op s).2.stream = (turned op s).stream ∧
    (turned op s).history.Extends (fun e => e.calling = none) (ask op s).2.history := by
  unfold ask
  dsimp only
  split
  · exact ⟨rfl, .refl⟩
  · exact silent_settle _ (turned op s)

theorem closed_of_announced {op : Turn.Operation} (hs : s.stream.state ≠ .closed) (h : (ask op s).1 = true) :
    (turned op s).stream.state = .closed := by
  generalize ht : s.turn.perform s.metadata op = t
  have hconcludes : t.Concludes s.metadata op.closings := ht ▸ Turn.concludes_perform op hs rfl
  cases hconcludes with
  | unclosed _ he =>
    rw [ask, ht] at h
    simp [he] at h
  | closed _ hu => rw [turned, ht, Turn.stream_close hu]

theorem act_turned (op : Turn.Operation) (hs : s.stream.state ≠ .closed) :
    (act op s).stream = (turned op s).stream ∧ (act op s).history.calls = (turned op s).history.calls := by
  obtain ⟨hstream, hh⟩ := silent_ask op s
  have hcalls := hh.calls_eq fun _ he => he
  unfold act
  dsimp only
  split
  · rename_i hannounced
    split
    · exact ⟨hstream, hcalls⟩
    · rename_i ops _
      have hclosed : (happen (.closed (ask op s).2.stream.id) (ask op s).2).stream.state = .closed :=
        (congrArg Stream.state hstream).trans (closed_of_announced hs hannounced)
      have hanswers := aside_answers ops hclosed
      exact ⟨hanswers.stream.trans hstream,
        (hanswers.history.calls_eq fun _ => IsIdleLine.calling).trans hcalls⟩
  · exact ⟨hstream, hcalls⟩

theorem closed_act (op : Turn.Operation) (hs : s.stream.state = .closed) : (act op s).stream.state = .closed :=
  (congrArg Stream.state (aside_act op hs).stream).trans hs

/-! A life as a story: what was asked, in order. -/

/-- What is asked of an exchange leads from one state to another; in between, things may happen beside it. -/
inductive Story : List Turn.Operation → State κ → State κ → Prop
  | nothing (s : State κ) : Story [] s s
  | asked {ops : List Turn.Operation} {s s' : State κ} (h : Story ops s s') (op : Turn.Operation) :
      Story (ops ++ [op]) s (act op s')
  | beside {ops : List Turn.Operation} {s s' s'' : State κ} (h : Story ops s s') (ha : Aside s' s'') : Story ops s s''

theorem Story.run (h : Story ops s s') : Run s s' := by
  induction h with
  | nothing s => exact .refl
  | asked _ op ih => exact ih.tail (.asked op _)
  | beside _ ha ih => exact ih.tail (.beside ha)

theorem story_foldl (ops : List Turn.Operation) (s : State κ) : Story ops s (ops.foldl (fun s op => act op s) s) := by
  induction ops using List.reverseRecOn with
  | nil => exact .nothing s
  | append_singleton ops op ih =>
    rw [List.foldl_append]
    exact .asked ih op

/-- While an exchange runs, its response is what came. -/
theorem Story.collects (h₀ : s₀.stream.response = {}) (h : Story ops s₀ s) (hs : s.stream.state ≠ .closed) :
    s.stream.response.Collects ops := by
  induction h with
  | nothing s =>
    rw [h₀]
    exact Response.collects_nil
  | @asked ops s s' _ op ih =>
    have hopen : s'.stream.state ≠ .closed := fun hclosed => hs (closed_act op hclosed)
    rw [(act_turned op hopen).1]
    exact Response.Collects.perform (t := s'.turn) (ih h₀ hopen) op hopen
  | beside _ ha ih =>
    rw [ha.stream] at hs ⊢
    exact ih h₀ hs

theorem Story.maxSize (h : Story ops s₀ s) : s.stream.maxSize = s₀.stream.maxSize := by
  induction h with
  | nothing s => rfl
  | @asked ops s s' _ op ih =>
    by_cases hs : s'.stream.state = .closed
    · rw [(aside_act op hs).stream, ih]
    · rw [(act_turned op hs).1, ← ih]
      exact Turn.maxSize_perform s'.turn op
  | beside _ ha ih => rw [ha.stream, ih]

theorem Story.complete (h₀ : Fresh s₀) (h : Story ops s₀ s) (hvalue : s.completion.value = some o)
    (hreason : o.reason = .ended) : ∃ earlier later causes announce s₁,
      ops = earlier ++ .close .ended causes announce :: later ∧ Story earlier s₀ s₁ ∧ s₁.stream.state ≠ .closed ∧
      o.response = s₁.stream.finalResponse s₁.metadata := by
  induction h with
  | nothing s => cases hvalue.symm.trans h₀.value
  | @asked ops s s' h op ih =>
    rcases h.run.unended_or h₀.unended with hopen | hended
    · rcases act_of_unended op hopen with hnext | ⟨c, hc, -, hended⟩
      · cases hvalue.symm.trans hnext.value
      · obtain rfl : _ = o := Option.some.inj (hended.value.symm.trans hvalue)
        obtain ⟨causes, announce, rfl, rfl⟩ := Turn.Operation.close_of_ended hc hreason
        refine ⟨ops, [], causes, announce, s', rfl, h, hopen.state, ?_⟩
        have hstream : (act (.close .ended causes announce) s').stream =
            { s'.stream with state := .closed, closeReason := .ended } :=
          (act_turned _ hopen.state).1.trans (Turn.stream_close (t := s'.turn) hopen.state)
        rw [hstream]
        rfl
    -- The exchange had ended before, and nothing that is asked of it then touches its value.
    · obtain ⟨c, m, hended⟩ := hended.exists
      have hsame := (aside_act op hended.state).value
      obtain ⟨earlier, later, causes, announce, s₁, rfl, hstory, hopen, hresponse⟩ := ih h₀ (hsame ▸ hvalue)
      exact ⟨earlier, later ++ [op], causes, announce, s₁, by simp, hstory, hopen, hresponse⟩
  | beside _ ha ih => exact ih h₀ (ha.value ▸ hvalue)

/-- The status of a running exchange, and the one that the caller of a complete exchange is told, is the number that the
last readable status field gave, as far as 32 bits keep it. -/
theorem Story.status (h₀ : Fresh s₀) (h : Story ops s₀ s) :
    (s.stream.state ≠ .closed →
      Header.KeptIn (ops.flatMap Turn.Operation.fields) s.stream.response.status) ∧
    ∀ o, s.completion.value = some o → o.reason = .ended → ∃ earlier later causes announce,
      ops = earlier ++ .close .ended causes announce :: later ∧
      Header.KeptIn (earlier.flatMap Turn.Operation.fields) o.response.status := by
  have hfresh : s₀.stream.response = {} := by
    obtain ⟨id, ticket, request, m, hmade⟩ := h₀.made
    rw [hmade]
    rfl
  constructor
  · intro hs
    rw [(h.collects hfresh hs).status]
    exact Header.keptIn_statusWord _
  · intro o hvalue hreason
    obtain ⟨earlier, later, causes, announce, s₁, hops, hstory, hopen, hresponse⟩ := h.complete h₀ hvalue hreason
    have hstatus : o.response.status = s₁.stream.response.status := by
      rw [hresponse]
      rfl
    refine ⟨earlier, later, causes, announce, hops, ?_⟩
    rw [hstatus, (hstory.collects hfresh hopen).status]
    exact Header.keptIn_statusWord _

/-- Status fields in two heads, some of which cannot be read. -/
theorem Story.status_informational :
    let setup : Setup := {
      metadata := { baseUrl := ⟨ascii "https", ascii "example.com", 443, ascii "/"⟩ }
      request := { url := ascii "https://example.com/" } }
    let ops : List Turn.Operation := [.markPending, .initiate, .receiveHeaders [(ascii ":status", ascii "103")],
      .receiveHeaders [(ascii ":status", ascii "00204"), (ascii ":status", ascii "-1"), (ascii ":Status", ascii "7"),
        (ascii ":status", ascii "9223372036854775808")]]
    let s := ops.foldl (fun s op => act op s) setup.state
    Header.lastStatus (ops.flatMap Turn.Operation.fields) = some 204 ∧ s.stream.state ≠ .closed ∧
      Header.KeptIn (ops.flatMap Turn.Operation.fields) s.stream.response.status := by
  refine ⟨by decide +kernel, by decide +kernel, ?_⟩
  exact (Story.status (Setup.fresh _) (story_foldl _ _)).1 (by decide +kernel)

/-- A status that can be read but takes more than 32 bits is told to the caller as another one, which looks like any. -/
theorem status_narrowed :
    let setup : Setup := {
      metadata := { baseUrl := ⟨ascii "https", ascii "example.com", 443, ascii "/"⟩ }
      request := { url := ascii "https://example.com/" } }
    let ops : List Turn.Operation := [.markPending, .initiate, .receiveHeaders [(ascii ":status", ascii "4294967496")]]
    let s := ops.foldl (fun s op => act op s) setup.state
    Header.lastStatus (ops.flatMap Turn.Operation.fields) = some 4294967496 ∧ s.stream.state ≠ .closed ∧
      s.stream.response.status = 200 ∧
      ((act (.close .ended [] false) s).completion.value.map (·.response.status)) = some 200 := by
  decide +kernel

end Scenario.Exchange

end Multiplex

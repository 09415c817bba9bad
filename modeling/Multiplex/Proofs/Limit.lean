import Multiplex.Proofs.Intake

/-! The limit on the size of a response. A running exchange never holds more of a body than its limit allows: the piece
that would make it more is taken up, its room is given back to the peer, and the exchange is reset and closed. An
announced length closes the exchange at once if it is above the limit, provided that it can be read; a length above all
that can be read counts as none. Without a limit no response closes an exchange. -/
namespace Multiplex

open Bytes Wire

def Request.limit (r : Request) (m : Metadata) : Int := if 0 ≤ r.maxSize then r.maxSize else m.maxSize

def Exceeds (limit : Int) (size : Nat) : Prop := 0 < limit ∧ limit < size

def Header.announced (fields : Headers) : Option Nat := (find fields (ascii "content-length")).bind Decimal.read

namespace Turn

variable {κ : Type} [Codec κ] {m : Metadata} {t : Turn κ}

/-! A size is held against the limit. -/

omit [Codec κ] in
theorem calls_close (t : Turn κ) (reason : CloseReason) (causes : List Fault) (announce : Bool) :
    (t.close m reason causes announce).history.calls = t.history.calls :=
  (extends_close t reason causes announce).calls_eq fun _ => Entry.IsStreamLine.unseen fun _ => rfl

omit [Codec κ] in
theorem closed_close {reason : CloseReason} (causes : List Fault) (announce : Bool) (hs : t.stream.state ≠ .closed) :
    (t.close m reason causes announce).stream.state = .closed := by
  rw [stream_close hs]

theorem closed_resetAndClose (code : ErrorCode) (reason : CloseReason) (hs : t.stream.state ≠ .closed) :
    (t.resetAndClose m code reason).stream.state = .closed ∧
    ∃ ret, (t.resetAndClose m code reason).history.calls = t.history.calls ++ [.reset t.stream.id code ret] := by
  have hreset : (t.record (Codec.reset t.codec t.stream.id code).2
      (.reset t.stream.id code (Codec.reset t.codec t.stream.id code).1)).history.calls =
        t.history.calls ++ [.reset t.stream.id code (Codec.reset t.codec t.stream.id code).1] :=
    History.calls_cons_call _ _
  unfold resetAndClose
  dsimp only
  split
  · exact ⟨closed_close [] true hs, _, (calls_close _ _ _ _).trans hreset⟩
  · exact ⟨closed_close [] true hs, _, (calls_close _ _ _ _).trans ((History.calls_note _ _ _ _).trans hreset)⟩

theorem checkSize_of_exceeds {size : Nat} (h : Exceeds t.stream.maxSize size) (hs : t.stream.state ≠ .closed) :
    (t.checkSize m size).stream.state = .closed ∧
    ∃ ret, (t.checkSize m size).history.calls = t.history.calls ++ [.reset t.stream.id .cancel ret] := by
  unfold Exceeds at h
  rw [checkSize, if_pos h]
  obtain ⟨hclosed, ret, hcalls⟩ := closed_resetAndClose (m := m) (t := t.note .error _) .cancel .maxsizeExceeded hs
  exact ⟨hclosed, ret, hcalls.trans (congrArg (· ++ _) (History.calls_note _ _ _ _))⟩

theorem checkSize_of_within {size : Nat} (h : ¬Exceeds t.stream.maxSize size) :
    (t.checkSize m size).stream.state = t.stream.state ∧ (t.checkSize m size).history.calls = t.history.calls := by
  unfold Exceeds at h
  rw [checkSize, if_neg h]
  split
  · exact ⟨rfl, History.calls_note _ _ _ _⟩
  · exact ⟨rfl, rfl⟩

/-! A piece of the body. -/

def pieceTaken (bytes : Bytes) (length : Nat) (t : Turn κ) : Turn κ :=
  let t :=
    if t.stream.headersReceived = false ∧ t.stream.response.body = [] then
      t.note .warn (t.stream.label ++ ascii ": data received before response headers")
    else t
  let t : Turn κ := { t with stream.response := t.stream.response.appendBody bytes }
  t.record (Codec.acknowledge t.codec length t.stream.id) (.acknowledge t.stream.id length)

theorem stream_pieceTaken (bytes : Bytes) (length : Nat) (t : Turn κ) :
    (t.pieceTaken bytes length).stream = { t.stream with response := t.stream.response.appendBody bytes } := by
  unfold pieceTaken
  dsimp only
  split <;> rfl

theorem calls_pieceTaken (bytes : Bytes) (length : Nat) (t : Turn κ) :
    (t.pieceTaken bytes length).history.calls = t.history.calls ++ [.acknowledge t.stream.id length] := by
  unfold pieceTaken
  dsimp only
  split
  · exact (History.calls_cons_call _ _).trans (congrArg (· ++ _) (History.calls_note _ _ _ _))
  · exact History.calls_cons_call _ _

theorem receiveData_eq (bytes : Bytes) (length : Nat) (hs : t.stream.state ≠ .closed) :
    t.receiveData m bytes length =
      (t.pieceTaken bytes length).checkSize m (t.stream.response.body ++ bytes).length := by
  have hbody : (t.pieceTaken bytes length).stream.response.body = t.stream.response.body ++ bytes := by
    rw [stream_pieceTaken]
    rfl
  rw [receiveData, if_neg hs, ← hbody]
  rfl

theorem receiveData_of_exceeds (bytes : Bytes) (length : Nat)
    (h : Exceeds t.stream.maxSize (t.stream.response.body ++ bytes).length) (hs : t.stream.state ≠ .closed) :
    (t.receiveData m bytes length).stream.state = .closed ∧
    ∃ ret, (t.receiveData m bytes length).history.calls =
      t.history.calls ++ [.acknowledge t.stream.id length, .reset t.stream.id .cancel ret] := by
  have htaken := stream_pieceTaken bytes length t
  obtain ⟨hclosed, ret, hcalls⟩ :=
    checkSize_of_exceeds (m := m) (t := t.pieceTaken bytes length) (by rwa [htaken]) (by rwa [htaken])
  rw [receiveData_eq bytes length hs]
  refine ⟨hclosed, ret, hcalls.trans ?_⟩
  rw [calls_pieceTaken, htaken, List.append_assoc]
  rfl

theorem receiveData_of_within (bytes : Bytes) (length : Nat)
    (h : ¬Exceeds t.stream.maxSize (t.stream.response.body ++ bytes).length) (hs : t.stream.state ≠ .closed) :
    (t.receiveData m bytes length).stream.state = t.stream.state ∧
    (t.receiveData m bytes length).history.calls = t.history.calls ++ [.acknowledge t.stream.id length] := by
  have htaken := stream_pieceTaken bytes length t
  have hcheck := checkSize_of_within (m := m) (t := t.pieceTaken bytes length) (by rwa [htaken])
  rw [calls_pieceTaken, htaken] at hcheck
  rw [receiveData_eq bytes length hs]
  exact hcheck

/-! A head. -/

omit [Codec κ] in
theorem calls_foldl_absorb (fields : Headers) (t : Turn κ) :
    (fields.foldl absorb t).history.calls = t.history.calls :=
  (extends_foldl_absorb fields t).calls_eq fun _ => Entry.IsStreamLine.unseen fun _ => rfl

theorem receiveHeaders_eq (fields : Headers) (hs : t.stream.state ≠ .closed) :
    ∃ u : Turn κ, u.stream.state = t.stream.state ∧ u.stream.id = t.stream.id ∧
      u.stream.maxSize = t.stream.maxSize ∧ u.history.calls = t.history.calls ∧
      t.receiveHeaders m fields =
        match Header.announced (t.stream.response.headers ++ Header.ofMessage fields) with
        | some n => u.checkSize m n
        | none => u := by
  have hsteps := (steps_absorb (m := m) fields hs).1
  have hstate := (same_foldl_absorb t fields).1
  have hcalls := calls_foldl_absorb fields t
  have hheaders := (grows_foldl_absorb fields t).headers
  have hannounced : announcedSize (fields.foldl absorb t).stream.response =
      Header.announced (t.stream.response.headers ++ Header.ofMessage fields) := by
    rw [← hheaders]
    rfl
  rw [receiveHeaders, if_neg hs]
  dsimp only
  rw [hannounced]
  cases Header.announced (t.stream.response.headers ++ Header.ofMessage fields) with
  | none =>
    refine ⟨_, ?_, ?_, ?_, ?_, rfl⟩
    exacts [hstate, hsteps.continues.id, hsteps.maxSize, hcalls]
  | some n =>
    refine ⟨_, ?_, ?_, ?_, ?_, rfl⟩
    exacts [hstate, hsteps.continues.id, hsteps.maxSize, hcalls]

theorem receiveHeaders_of_exceeds (fields : Headers) {n : Nat}
    (hn : Header.announced (t.stream.response.headers ++ Header.ofMessage fields) = some n)
    (h : Exceeds t.stream.maxSize n) (hs : t.stream.state ≠ .closed) :
    (t.receiveHeaders m fields).stream.state = .closed ∧
    ∃ ret, (t.receiveHeaders m fields).history.calls = t.history.calls ++ [.reset t.stream.id .cancel ret] := by
  obtain ⟨u, hstate, hid, hmax, hcalls, heq⟩ := receiveHeaders_eq (m := m) fields hs
  have hcheck := checkSize_of_exceeds (m := m) (t := u) (hmax ▸ h) (hstate ▸ hs)
  rw [hcalls, hid] at hcheck
  rw [heq, hn]
  exact hcheck

theorem receiveHeaders_of_within (fields : Headers)
    (h : ∀ n, Header.announced (t.stream.response.headers ++ Header.ofMessage fields) = some n →
      ¬Exceeds t.stream.maxSize n) (hs : t.stream.state ≠ .closed) :
    (t.receiveHeaders m fields).stream.state = t.stream.state ∧
    (t.receiveHeaders m fields).history.calls = t.history.calls := by
  obtain ⟨u, hstate, -, hmax, hcalls, heq⟩ := receiveHeaders_eq (m := m) fields hs
  rw [heq]
  cases hn : Header.announced (t.stream.response.headers ++ Header.ofMessage fields) with
  | none => exact ⟨hstate, hcalls⟩
  | some n =>
    obtain ⟨hsame, hsilent⟩ := checkSize_of_within (m := m) (t := u) (hmax ▸ h n hn)
    exact ⟨hsame.trans hstate, hsilent.trans hcalls⟩

end Turn

namespace Header

variable {old before after : Headers} {name text : Bytes}

/-- The first length counts, whatever fields of the protocol stand around it. -/
theorem announced_append (hold : ∀ f ∈ old, ¬TellsLength f) (hbefore : ∀ f ∈ before, ¬TellsLength f)
    (hfirst : TellsLength (name, text)) :
    announced (ofMessage old ++ ofMessage (before ++ (name, text) :: after)) = Decimal.read text := by
  have hmessage : ofMessage old ++ ofMessage (before ++ (name, text) :: after) =
      (ofMessage old ++ ofMessage before) ++ (name, text) :: ofMessage after := by
    simp [ofMessage, hfirst.not_isPseudo]
  have hnone : ∀ f ∈ ofMessage old ++ ofMessage before, ¬TellsLength f := by
    intro f hf
    rcases List.mem_append.1 hf with hf | hf
    · exact hold f (List.mem_of_mem_filter hf)
    · exact hbefore f (List.mem_of_mem_filter hf)
  rw [announced, hmessage, find_length hnone hfirst]
  rfl

end Header

namespace Scenario.Exchange

variable {κ : Type} [Wire.Codec κ] {s s' s₀ : State κ} {ops : List Turn.Operation} {calls : List Call}

structure Continued (calls : List Call) (s s' : State κ) : Prop where
  unended : Unended s'
  state : s'.stream.state = s.stream.state
  calls : s'.history.calls = s.history.calls ++ calls

structure Cancelled (calls : List Call) (s s' : State κ) : Prop where
  ended : Ended ⟨.maxsizeExceeded, [], true⟩ s.metadata s'
  calls : ∃ ret, s'.history.calls = s.history.calls ++ (calls ++ [.reset s.stream.id .cancel ret])

theorem continued_act (op : Turn.Operation) (h : Unended s) (hstate : (turned op s).stream.state = s.stream.state)
    (hcalls : (turned op s).history.calls = s.history.calls ++ calls) : Continued calls s (act op s) := by
  obtain ⟨hstream, hsame⟩ := act_turned op h.state
  have hopen : (act op s).stream.state = s.stream.state := (congrArg Stream.state hstream).trans hstate
  refine ⟨?_, hopen, hsame.trans hcalls⟩
  rcases act_of_unended op h with hnext | ⟨c, -, -, hended⟩
  · exact hnext
  · exact absurd (hopen.symm.trans hended.state) h.state

theorem cancelled_act (op : Turn.Operation) (h : Unended s) (hop : op.closings = [⟨.maxsizeExceeded, [], true⟩])
    (hstate : (turned op s).stream.state = .closed)
    (hcalls : ∃ ret, (turned op s).history.calls =
      s.history.calls ++ (calls ++ [.reset s.stream.id .cancel ret])) : Cancelled calls s (act op s) := by
  obtain ⟨hstream, hsame⟩ := act_turned op h.state
  refine ⟨?_, hsame ▸ hcalls⟩
  rcases act_of_unended op h with hnext | ⟨c, hc, -, hended⟩
  · exact absurd ((congrArg Stream.state hstream).trans hstate) hnext.state
  · rw [hop] at hc
    obtain rfl := List.mem_singleton.1 hc
    exact hended

structure Capped (limit : Int) (s : State κ) : Prop where
  held : 0 < limit → s.stream.state ≠ .closed → s.stream.response.body.length ≤ limit
  told : 0 < limit → ∀ o, s.completion.value = some o → o.response.body.length ≤ limit
  taken : s.stream.state ≠ .closed → ∀ bytes length,
    (act (.receiveData bytes length) s).stream.response.body = s.stream.response.body ++ bytes
  exceeded : s.stream.state ≠ .closed → ∀ bytes length,
    0 < limit → limit < (s.stream.response.body ++ bytes).length →
      Cancelled [.acknowledge s.stream.id length] s (act (.receiveData bytes length) s)
  within : s.stream.state ≠ .closed → ∀ bytes length,
    limit ≤ 0 ∨ (s.stream.response.body ++ bytes).length ≤ limit →
      Continued [.acknowledge s.stream.id length] s (act (.receiveData bytes length) s)
  unlimited : s.stream.state ≠ .closed → ∀ fields, limit ≤ 0 → Continued [] s (act (.receiveHeaders fields) s)

theorem body_act {op : Turn.Operation} (hs : s.stream.state ≠ .closed) :
    (act op s).stream.response.body = s.stream.response.body ++ op.bytes := by
  rw [(act_turned op hs).1]
  exact (Turn.grows_perform (t := s.turn) op hs).body

/-- What an exchange holds while it runs is within its limit. -/
theorem Story.held (h₀ : s₀.stream.response = {}) (h : Story ops s₀ s) (hlimit : 0 < s.stream.maxSize)
    (hs : s.stream.state ≠ .closed) : s.stream.response.body.length ≤ s.stream.maxSize := by
  induction h with
  | nothing s =>
    rw [h₀]
    exact Int.le_of_lt hlimit
  | @asked ops s s' h op ih =>
    have hopen : s'.stream.state ≠ .closed := fun hclosed => hs (closed_act op hclosed)
    have hturned := act_turned op hopen
    have hmax : (act op s').stream.maxSize = s'.stream.maxSize := (Story.asked h op).maxSize.trans h.maxSize.symm
    rw [hmax] at hlimit ⊢
    rw [body_act hopen]
    -- A piece that is too much ends the exchange, and what has ended is not measured.
    by_cases hexceeds : Exceeds s'.stream.maxSize (s'.stream.response.body ++ op.bytes).length
    · have hbefore := ih h₀ hlimit hopen
      cases op with
      | receiveData bytes length =>
        have hclosed :=
          (Turn.receiveData_of_exceeds (m := s'.metadata) (t := s'.turn) bytes length hexceeds hopen).1
        exact absurd ((congrArg Stream.state hturned.1).trans hclosed) hs
      | markPending | initiate | receiveHeaders | receiveWindowUpdate | close =>
        exact absurd hexceeds.2 (Int.not_lt.2 (by simpa [Turn.Operation.bytes] using hbefore))
    · exact Int.not_lt.1 fun hlt => hexceeds ⟨hlimit, hlt⟩
  | beside _ ha ih =>
    rw [ha.stream] at hs hlimit ⊢
    exact ih h₀ hlimit hs

variable {id : UInt32} {ticket : Ticket} {request : Request} {m : Metadata}

theorem Story.limit (hmade : s₀.stream = Stream.new id ticket request m) (h : Story ops s₀ s) :
    s.stream.maxSize = request.limit m := by
  rw [h.maxSize, hmade]
  rfl

theorem Story.unended (h₀ : Fresh s₀) (h : Story ops s₀ s) (hs : s.stream.state ≠ .closed) : Unended s :=
  (h.run.lifecycle h₀).running hs

/-- What comes for an exchange in whatever order, it is held to the limit that it was made with. -/
theorem Story.capped (h₀ : Fresh s₀) (hmade : s₀.stream = Stream.new id ticket request m) (h : Story ops s₀ s) :
    Capped (request.limit m) s := by
  have hfresh : s₀.stream.response = {} := by rw [hmade]; rfl
  have hlimit := h.limit hmade
  refine ⟨?_, ?_, fun hs _ _ => body_act hs, ?_, ?_, ?_⟩
  · intro hpos hs
    rw [← hlimit] at hpos ⊢
    exact h.held hfresh hpos hs
  · intro hpos o hvalue
    by_cases hreason : o.reason = .ended
    · obtain ⟨earlier, later, causes, announce, s₁, -, hstory, hopen, hresponse⟩ := h.complete h₀ hvalue hreason
      rw [← hstory.limit hmade] at hpos ⊢
      rw [hresponse]
      exact hstory.held hfresh hpos hopen
    · rcases h.run.unended_or h₀.unended with hopen | hended
      · cases hopen.value.symm.trans hvalue
      · obtain ⟨c, m', hended⟩ := hended.exists
        obtain rfl : _ = o := Option.some.inj (hended.value.symm.trans hvalue)
        have hnone : (s.stream.outcome m' c.reason c.causes).response = {} := if_neg hreason
        rw [hnone]
        exact Int.le_of_lt hpos
  · intro hs bytes length hpos hlt
    have hexceeds : Exceeds s.stream.maxSize (s.stream.response.body ++ bytes).length := hlimit ▸ ⟨hpos, hlt⟩
    have hturn := Turn.receiveData_of_exceeds (m := s.metadata) (t := s.turn) bytes length hexceeds hs
    exact cancelled_act (.receiveData bytes length) (h.unended h₀ hs) rfl hturn.1 hturn.2
  · intro hs bytes length hbound
    have hwithin : ¬Exceeds s.stream.maxSize (s.stream.response.body ++ bytes).length := by
      rw [hlimit]
      rintro ⟨hpos, hlt⟩
      omega
    have hturn := Turn.receiveData_of_within (m := s.metadata) (t := s.turn) bytes length hwithin hs
    exact continued_act (.receiveData bytes length) (h.unended h₀ hs) hturn.1 hturn.2
  · intro hs fields hnone
    have hwithin : ∀ n, ¬Exceeds s.stream.maxSize n := by
      rw [hlimit]
      rintro n ⟨hpos, -⟩
      omega
    have hturn := Turn.receiveHeaders_of_within (m := s.metadata) (t := s.turn) fields (fun n _ => hwithin n) hs
    exact continued_act (.receiveHeaders fields) (h.unended h₀ hs) hturn.1 (hturn.2.trans (List.append_nil _).symm)

/-- A limit of three bytes that comes from the connection: two bytes are kept, the next two close the exchange. -/
theorem Story.capped_piecewise :
    let setup : Setup := {
      metadata := { baseUrl := ⟨ascii "https", ascii "example.com", 443, ascii "/"⟩, maxSize := 3 }
      codec := { resets := { constant := -1 } }
      request := { url := ascii "https://example.com/" } }
    let ops : List Turn.Operation := [.markPending, .initiate, .receiveData (ascii "he") 2]
    let s := ops.foldl (fun s op => act op s) setup.state
    setup.request.limit setup.metadata = 3 ∧ Capped 3 s ∧ s.stream.state ≠ .closed ∧
      s.stream.response.body = ascii "he" ∧
      (act (.receiveData (ascii "ll") 2) s).history.calls =
        s.history.calls ++ [.acknowledge 1 2, .reset 1 .cancel (-1)] := by
  intro setup ops s
  have hlimit : setup.request.limit setup.metadata = 3 := by decide
  have hcapped : Capped (setup.request.limit setup.metadata) s :=
    Story.capped (Setup.fresh setup) rfl (story_foldl ops setup.state)
  refine ⟨hlimit, hlimit ▸ hcapped, by decide +kernel, by decide +kernel, by decide +kernel⟩

/-! The announced length. -/

/-- What comes of a length that is announced: the exchange is cancelled if it is above the limit but not above all
lengths that can be read, and otherwise goes on. -/
structure Announced (limit : Int) (length : Nat) (s s' : State κ) : Prop where
  closed_iff : s'.stream.state = .closed ↔ limit < length ∧ length ≤ Decimal.largest
  cancelled : s'.stream.state = .closed → Cancelled [] s s'
  continued : s'.stream.state ≠ .closed → Continued [] s s'

/-- The first length that is announced to a running exchange with a limit is held against that limit, if it can be read.
-/
theorem Story.announced_length (h₀ : Fresh s₀) (hmade : s₀.stream = Stream.new id ticket request m) (h : Story ops s₀ s)
    (hs : s.stream.state ≠ .closed) (hlimit : 0 < request.limit m)
    (hunseen : ∀ f ∈ ops.flatMap Turn.Operation.fields, ¬Header.TellsLength f)
    {before : Headers} {name text : Bytes} (after : Headers) (hbefore : ∀ f ∈ before, ¬Header.TellsLength f)
    (hfirst : Header.TellsLength (name, text)) (htext : text ≠ []) (hdigits : ∀ b ∈ text, isDigit b = true) :
    Announced (request.limit m) (Decimal.value text) s (act (.receiveHeaders (before ++ (name, text) :: after)) s) := by
  have hfresh : s₀.stream.response = {} := by rw [hmade]; rfl
  have hread : Header.announced (s.stream.response.headers ++ Header.ofMessage (before ++ (name, text) :: after)) =
      Decimal.read text := by
    rw [(h.collects hfresh hs).headers]
    exact Header.announced_append hunseen hbefore hfirst
  have hmax : s.stream.maxSize = request.limit m := h.limit hmade
  by_cases hover : request.limit m < Decimal.value text ∧ Decimal.value text ≤ Decimal.largest
  · have hn : Decimal.read text = some (Decimal.value text) :=
      Decimal.read_eq_some_iff.2 ⟨⟨htext, hdigits, hover.2⟩, rfl⟩
    have hturn := Turn.receiveHeaders_of_exceeds (m := s.metadata) (t := s.turn) _ (hread.trans hn)
      (hmax ▸ ⟨hlimit, hover.1⟩) hs
    have hcancelled : Cancelled [] s (act (.receiveHeaders _) s) :=
      cancelled_act (.receiveHeaders _) (h.unended h₀ hs) rfl hturn.1 hturn.2
    exact ⟨iff_of_true hcancelled.ended.state hover, fun _ => hcancelled, absurd hcancelled.ended.state⟩
  · have hwithin : ∀ n, Decimal.read text = some n → ¬Exceeds s.stream.maxSize n := by
      intro n hn hexceeds
      obtain ⟨hreadable, rfl⟩ := Decimal.read_eq_some_iff.1 hn
      exact hover ⟨hmax ▸ hexceeds.2, hreadable.2.2⟩
    have hturn := Turn.receiveHeaders_of_within (m := s.metadata) (t := s.turn) _
      (fun n hn => hwithin n (hread.symm.trans hn)) hs
    have hcontinued : Continued [] s (act (.receiveHeaders _) s) :=
      continued_act (.receiveHeaders _) (h.unended h₀ hs) hturn.1 (hturn.2.trans (List.append_nil _).symm)
    exact ⟨iff_of_false hcontinued.unended.state hover, fun hclosed => absurd hclosed hcontinued.unended.state,
      fun _ => hcontinued⟩

/-- A name in mixed case, zeros in front, and a second length that does not count. -/
theorem Story.announced_length_zeros :
    let setup : Setup := {
      metadata := { baseUrl := ⟨ascii "https", ascii "example.com", 443, ascii "/"⟩, maxSize := 5 }
      request := { url := ascii "https://example.com/", maxSize := 100 } }
    let ops : List Turn.Operation := [.markPending, .initiate, .receiveHeaders [(ascii ":status", ascii "103")]]
    let s := ops.foldl (fun s op => act op s) setup.state
    let s' := act (.receiveHeaders ([(ascii ":status", ascii "200")] ++ (ascii "Content-LENGTH", ascii "00101") ::
      [(ascii "content-length", ascii "7")])) s
    setup.request.limit setup.metadata = 100 ∧ s.stream.state ≠ .closed ∧ Announced 100 101 s s' ∧
      s'.stream.state = .closed := by
  intro setup ops s s'
  have hlimit : setup.request.limit setup.metadata = 100 := by decide
  have hvalue : Decimal.value (ascii "00101") = 101 := by decide
  have hrunning : s.stream.state ≠ .closed := by decide +kernel
  have hunseen : ∀ f ∈ ops.flatMap Turn.Operation.fields, ¬Header.TellsLength f := by decide
  have hbefore : ∀ f ∈ [(ascii ":status", ascii "200")], ¬Header.TellsLength f := by decide
  have hfirst : Header.TellsLength (ascii "Content-LENGTH", ascii "00101") := by decide
  have hdigits : ∀ b ∈ ascii "00101", isDigit b = true := List.all_eq_true.1 (by decide)
  have hannounced : Announced (setup.request.limit setup.metadata) (Decimal.value (ascii "00101")) s s' :=
    Story.announced_length (Setup.fresh setup) rfl (story_foldl ops setup.state) hrunning (by decide) hunseen
      [(ascii "content-length", ascii "7")] hbefore hfirst (by decide) hdigits
  rw [hlimit, hvalue] at hannounced
  exact ⟨hlimit, hrunning, hannounced, hannounced.closed_iff.2 (by decide)⟩

/-- A length of nineteen digits that is above all that can be read closes nothing, although the limit is a hundred
bytes. -/
theorem length_passed_over :
    let setup : Setup := {
      metadata := { baseUrl := ⟨ascii "https", ascii "example.com", 443, ascii "/"⟩ }
      request := { url := ascii "https://example.com/", maxSize := 100 } }
    let text := ascii "9223372036854775808"
    let s := [Turn.Operation.markPending, .initiate].foldl (fun s op => act op s) setup.state
    let s' := act (.receiveHeaders [(ascii ":status", ascii "200"), (ascii "content-length", text)]) s
    (s.stream.state ≠ .closed ∧ s.stream.maxSize = 100 ∧ s.stream.response.headers = []) ∧
      (text ≠ [] ∧ (∀ b ∈ text, isDigit b = true) ∧ s.stream.maxSize < Decimal.value text) ∧
      s'.stream.state ≠ .closed ∧ s'.history.calls = s.history.calls := by
  intro setup text s s'
  have hdigits : ∀ b ∈ text, isDigit b = true := List.all_eq_true.1 (by decide)
  exact ⟨by decide +kernel, ⟨by decide, hdigits, by decide +kernel⟩, by decide +kernel, by decide +kernel⟩

end Scenario.Exchange

end Multiplex

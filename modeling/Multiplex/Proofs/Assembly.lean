import Multiplex.Proofs.Record

/-! The response of an exchange grows by what a turn takes up, and by nothing else: fields of a head that belong to the
message, and pieces of the body. No turn says that a response is complete. -/
namespace Multiplex

open Bytes Wire

structure Response.Grows (fields : Headers) (bytes : Bytes) (r r' : Response) : Prop where
  headers : r'.headers = r.headers ++ fields
  body : r'.body = r.body ++ bytes

def Header.ofMessage (fields : Headers) : Headers := fields.filter fun field => !isPseudo field.1

theorem Header.ofMessage_append (a b : Headers) : ofMessage (a ++ b) = ofMessage a ++ ofMessage b :=
  List.filter_append a b

theorem Header.ofMessage_singleton (field : Bytes × Bytes) :
    ofMessage [field] = if isPseudo field.1 then [] else [field] := by
  cases h : isPseudo field.1 <;> simp [ofMessage, h]

namespace Response.Grows

variable {fields fields' : Headers} {bytes bytes' : Bytes} {r r' r'' : Response}

theorem refl (r : Response) : Grows [] [] r r := ⟨(List.append_nil _).symm, (List.append_nil _).symm⟩

theorem of_eq (h : r' = r) : Grows [] [] r r' := h ▸ refl r

theorem trans (h : Grows fields bytes r r') (h' : Grows fields' bytes' r' r'') :
    Grows (fields ++ fields') (bytes ++ bytes') r r'' := by
  refine ⟨?_, ?_⟩
  · rw [h'.headers, h.headers, List.append_assoc]
  · rw [h'.body, h.body, List.append_assoc]

end Response.Grows

namespace Turn

variable {κ : Type} [Codec κ] {m : Metadata} {t t' : Turn κ}

theorem response_offer (t : Turn κ) : t.offer.2.stream.response = t.stream.response := by
  unfold offer
  dsimp only
  split <;> rfl

omit [Codec κ] in
theorem response_close (t : Turn κ) (reason : CloseReason) (causes : List Fault) (announce : Bool) :
    (t.close m reason causes announce).stream.response = t.stream.response := by
  by_cases hs : t.stream.state = .closed
  · unfold close
    rw [if_pos hs]
    rfl
  · rw [stream_close hs]

theorem Step.response (h : Step m .sending t t') : t'.stream.response = t.stream.response := by
  cases h with
  | piece => exact response_offer t
  | close causes => exact response_close t _ causes true
  | note | complete | reset => rfl

theorem Steps.response (h : Steps m .sending t t') : t'.stream.response = t.stream.response := by
  induction h with
  | refl => rfl
  | tail _ hstep ih => exact hstep.response.trans ih

theorem response_initiate : (t.initiate m).stream.response = t.stream.response := by
  by_cases hs : t.stream.state = .pending
  · rcases initiate_cases (m := m) hs with ⟨message, h⟩ | ⟨url, message, -, h⟩ | ⟨url, -, h⟩
    · rw [h]
      exact response_close _ _ _ _
    · rw [h]
      exact response_close _ _ _ _
    · exact h.response
  · rw [show t.initiate m = t.warnStray _ from if_pos hs]
    rfl

theorem response_resetAndClose (t : Turn κ) (code : ErrorCode) (reason : CloseReason) :
    (t.resetAndClose m code reason).stream.response = t.stream.response := by
  unfold resetAndClose
  dsimp only
  split <;> exact response_close _ _ _ _

theorem response_checkSize (t : Turn κ) (size : Nat) : (t.checkSize m size).stream.response = t.stream.response := by
  unfold checkSize
  split
  · exact response_resetAndClose _ _ _
  · split <;> rfl

/-! Heads. -/

omit [Codec κ] in
theorem grows_absorb (t : Turn κ) (field : Bytes × Bytes) :
    t.stream.response.Grows (Header.ofMessage [field]) [] (t.absorb field).stream.response := by
  unfold absorb
  split
  · rename_i hstatus
    have hpseudo : Header.isPseudo field.1 = true := by
      rw [hstatus]
      decide
    rw [Header.ofMessage_singleton, if_pos hpseudo]
    split <;> exact ⟨(List.append_nil _).symm, (List.append_nil _).symm⟩
  · rw [Header.ofMessage_singleton]
    split
    · exact .refl _
    · exact ⟨rfl, (List.append_nil _).symm⟩

omit [Codec κ] in
theorem grows_foldl_absorb (fields : Headers) (t : Turn κ) :
    t.stream.response.Grows (Header.ofMessage fields) [] (fields.foldl absorb t).stream.response := by
  induction fields generalizing t with
  | nil => exact .refl _
  | cons field rest ih =>
    rw [← List.singleton_append, Header.ofMessage_append]
    exact (grows_absorb t field).trans (ih _)

theorem grows_receiveHeaders (fields : Headers) (hs : t.stream.state ≠ .closed) :
    t.stream.response.Grows (Header.ofMessage fields) [] (t.receiveHeaders m fields).stream.response := by
  unfold receiveHeaders
  rw [if_neg hs]
  dsimp only
  split
  · rw [response_checkSize]
    exact grows_foldl_absorb fields t
  · exact grows_foldl_absorb fields t

/-! Pieces of the body. -/

theorem grows_receiveData (data : Bytes) (length : Nat) (hs : t.stream.state ≠ .closed) :
    t.stream.response.Grows [] data (t.receiveData m data length).stream.response := by
  unfold receiveData
  rw [if_neg hs]
  dsimp only
  rw [response_checkSize]
  split <;> exact ⟨(List.append_nil _).symm, rfl⟩

/-! Endings. -/

def Unended (t : Turn κ) : Prop := ∀ ending, t.ending = some ending → ending.outcome.reason ≠ .ended

omit [Codec κ] in
theorem unended_of_none (h : t.ending = none) : t.Unended := by
  intro ending he
  cases h.symm.trans he

omit [Codec κ] in
theorem unended_close {reason : CloseReason} (causes : List Fault) (announce : Bool) (hr : reason ≠ .ended)
    (hs : t.stream.state ≠ .closed) : (t.close m reason causes announce).Unended := by
  intro ending he
  rw [ending_close hs] at he
  obtain rfl := Option.some.inj he
  exact hr

theorem Step.unended {d : Direction} (h : Step m d t t') (ht : t.Unended) : t'.Unended := by
  cases h with
  | piece => exact fun ending he => ht ending ((same_offer t).2.2.symm.trans he)
  | absorb field => exact fun ending he => ht ending ((same_absorb t field).2.2.symm.trans he)
  | close causes hr hs => exact unended_close causes true hr hs
  | note | complete | headReceived | expect | warned | append | acknowledge | reset => exact ht

theorem Steps.unended {d : Direction} (h : Steps m d t t') (ht : t.Unended) : t'.Unended := by
  induction h with
  | refl => exact ht
  | tail _ hstep ih => exact hstep.unended ih

theorem unended_initiate (he : t.ending = none) : (t.initiate m).Unended := by
  by_cases hs : t.stream.state = .pending
  · have hopen : t.stream.state ≠ .closed := by
      rw [hs]
      exact StreamState.noConfusion
    rcases initiate_cases (m := m) hs with ⟨message, h⟩ | ⟨url, message, -, h⟩ | ⟨url, -, h⟩
    · rw [h]
      exact unended_close [] true CloseReason.noConfusion hopen
    · rw [h]
      exact unended_close _ true CloseReason.noConfusion hopen
    · exact h.unended (unended_of_none he)
  · rw [show t.initiate m = t.warnStray _ from if_pos hs]
    exact unended_of_none he

end Turn

end Multiplex

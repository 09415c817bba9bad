import Multiplex.Proofs.Discipline
import Multiplex.Proofs.Proceedings

/-! Whom an opened window wakes. The requests that are held up are tried one after the other, and while one is tried
others may fail and leave, and waiting ones may start in their room. None of that holds up a request that was not held
up before, and one that was tried is not held up any more. -/
namespace Multiplex

open Bytes Wire

/-- What is left of a request tallies with the state of its exchange. -/
structure Stream.Tallies (x : Stream) : Prop where
  waiting : x.state = .created ∨ x.state = .pending → x.requestSent = false ∧ x.unsent = x.request.body
  complete : x.state = .halfClosed → x.unsent = []

/-- The head of the request was sent, and the body is held up although its window is open. -/
structure Stream.Lags {κ : Type} [Codec κ] (c : κ) (x : Stream) : Prop where
  sent : x.requestSent = true
  unsent : x.unsent ≠ []
  window : 0 < (Codec.window c x.id).toInt

theorem Stream.Tallies.of_opened {x : Stream} (h : x.state = .opened) : x.Tallies := by
  constructor
  · rw [h]
    exact fun hs => hs.elim StreamState.noConfusion StreamState.noConfusion
  · rw [h]
    exact fun hs => StreamState.noConfusion hs

theorem Stream.Tallies.of_complete {x : Stream} (h : x.state = .halfClosed) (hu : x.unsent = []) : x.Tallies := by
  refine ⟨?_, fun _ => hu⟩
  rw [h]
  exact fun hs => hs.elim StreamState.noConfusion StreamState.noConfusion

theorem Stream.Tallies.of_same {x y : Stream} (h : x.Tallies) (hstate : y.state = x.state)
    (hsent : y.requestSent = x.requestSent) (hunsent : y.unsent = x.unsent) (hrequest : y.request = x.request) :
    y.Tallies := by
  obtain ⟨hwaiting, hcomplete⟩ := h
  constructor
  · rw [hstate, hsent, hunsent, hrequest]
    exact hwaiting
  · rw [hstate, hunsent]
    exact hcomplete

namespace Turn

variable {κ : Type} [Codec κ] {m : Metadata} {d : Direction} {t t' : Turn κ}

omit [Codec κ] in
theorem unsent_absorb (t : Turn κ) (field : Bytes × Bytes) : (t.absorb field).stream.unsent = t.stream.unsent := by
  unfold absorb
  split
  · split <;> rfl
  · split <;> rfl

omit [Codec κ] in
theorem tallies_close {reason : CloseReason} (causes : List Fault) (announce : Bool) (hs : t.stream.state ≠ .closed) :
    (t.close m reason causes announce).stream.Tallies := by
  rw [stream_close hs]
  exact ⟨fun h => h.elim StreamState.noConfusion StreamState.noConfusion, fun h => StreamState.noConfusion h⟩

theorem Step.tallies (h : Step m d t t') (ht : t.stream.Tallies) : t'.stream.Tallies := by
  cases h with
  | piece hs => exact .of_opened ((same_offer t).1.trans hs)
  | complete hs hu => exact .of_complete rfl hu
  | absorb field =>
    exact ht.of_same (same_absorb t field).1 (same_absorb t field).2.1 (unsent_absorb t field)
      (continues_absorb t field).request
  | close causes hr hs => exact tallies_close causes true hs
  | note | headReceived | expect | warned | append | acknowledge | reset => exact ht.of_same rfl rfl rfl rfl

theorem Steps.tallies (h : Steps m d t t') (ht : t.stream.Tallies) : t'.stream.Tallies := by
  induction h with
  | refl => exact ht
  | tail _ hstep ih => exact hstep.tallies ih

theorem tallies_headTaken (url : Url) (hs : t.stream.state = .pending) (ht : t.stream.Tallies) :
    (t.headTaken url).stream.Tallies := by
  by_cases hempty : t.stream.request.body.isEmpty
  · exact .of_complete (if_pos hempty) ((ht.waiting (Or.inr hs)).2.trans (List.isEmpty_iff.1 hempty))
  · exact .of_opened (if_neg hempty)

theorem tallies_initiate (ht : t.stream.Tallies) : (t.initiate m).stream.Tallies := by
  by_cases hs : t.stream.state = .pending
  · have hopen : t.stream.state ≠ .closed := by
      rw [hs]
      exact StreamState.noConfusion
    rcases initiate_cases (m := m) hs with ⟨message, h⟩ | ⟨url, message, -, h⟩ | ⟨url, -, h⟩
    · rw [h]
      exact tallies_close [] true hopen
    · rw [h]
      exact tallies_close _ true hopen
    · exact h.tallies (tallies_headTaken url hs ht)
  · rw [show t.initiate m = t.warnStray _ from if_pos hs]
    exact ht

theorem Step.unsent (h : Step m .receiving t t') : t'.stream.id = t.stream.id ∧
    t'.stream.requestSent = t.stream.requestSent ∧ t'.stream.unsent = t.stream.unsent := by
  cases h with
  | absorb field => exact ⟨(continues_absorb t field).id, (same_absorb t field).2.1, unsent_absorb t field⟩
  | close causes hr hs =>
    rw [stream_close hs]
    exact ⟨rfl, rfl, rfl⟩
  | note | headReceived | expect | warned | append | acknowledge | reset => exact ⟨rfl, rfl, rfl⟩

theorem Steps.unsent (h : Steps m .receiving t t') : t'.stream.id = t.stream.id ∧
    t'.stream.requestSent = t.stream.requestSent ∧ t'.stream.unsent = t.stream.unsent := by
  induction h with
  | refl => exact ⟨rfl, rfl, rfl⟩
  | tail _ hstep ih =>
    obtain ⟨hid, hsent, hunsent⟩ := hstep.unsent
    exact ⟨hid.trans ih.1, hsent.trans ih.2.1, hunsent.trans ih.2.2⟩

omit [Codec κ] in
theorem Concludes.open {closings : List Closing} (h : Concludes m closings t) (he : t.ending = none) :
    t.stream.state ≠ .closed := by
  cases h with
  | unclosed hs => exact hs
  | closed hc hs =>
    rw [ending_close hs] at he
    cases he

theorem room_sendBody (m : Metadata) (t : Turn κ) (hs : (t.sendBody m).stream.state = .opened) :
    (t.sendBody m).room = 0 := by
  fun_induction sendBody m t with
  | case1 t hu hopen => exact StreamState.noConfusion hs
  | case2 t hu hne => exact absurd hs hne
  | case3 t hu hw =>
    have hnone : (Codec.window t.codec t.stream.id).toInt.toNat = 0 := Int.toNat_of_nonpos hw
    change min (Codec.window t.codec t.stream.id).toInt.toNat _ = 0
    rw [hnone, Nat.zero_min]
  | case4 t hu hw hr => exact hr
  | case5 t hu hw hr o ho ih => exact ih hs
  | case6 => exact StreamState.noConfusion (hs.symm.trans (state_resetAndClose _ _ _))

theorem room_initiate (hp : t.stream.state = .pending) (hs : (t.initiate m).stream.state = .opened) :
    (t.initiate m).room = 0 := by
  rcases initiate_eq (m := m) hp with ⟨message, hstray⟩ | ⟨url, hstart⟩
  · rw [hstray, state_close] at hs
    exact StreamState.noConfusion hs
  · rw [hstart] at hs ⊢
    by_cases hret : (t.headAnswer url).1 = 0
    · obtain ⟨message, htaken⟩ := start_of_taken (m := m) hret
      rw [htaken] at hs ⊢
      split at hs
      · rename_i hempty
        exact StreamState.noConfusion (hs.symm.trans (if_pos hempty))
      · rename_i hbody
        rw [if_neg hbody]
        exact room_sendBody m _ hs
    · obtain ⟨message, hrefused⟩ := start_of_refused (m := m) hret
      rw [hrefused, state_close] at hs
      exact StreamState.noConfusion hs

theorem sated (ht : t.stream.Tallies) (hopen : t.stream.state ≠ .closed) (hroom : t.stream.state = .opened → t.room = 0)
    (hframe : 0 < (Codec.maxFrame t.codec).toNat) : ¬t.stream.Lags t.codec := by
  rintro ⟨hsent, hunsent, hwindow⟩
  cases hs : t.stream.state with
  | created => exact Bool.false_ne_true ((ht.waiting (Or.inl hs)).1.symm.trans hsent)
  | pending => exact Bool.false_ne_true ((ht.waiting (Or.inr hs)).1.symm.trans hsent)
  | opened =>
    have hmin : min (Codec.window t.codec t.stream.id).toInt.toNat (Codec.maxFrame t.codec).toNat = 0 := hroom hs
    omega
  | halfClosed => exact hunsent (ht.complete hs)
  | closed => exact hopen hs

theorem sated_initiate (hs : t.stream.state = .pending) (ht : t.stream.Tallies) (hnone : t.ending = none)
    (he : (t.initiate m).ending = none) (hframe : 0 < (Codec.maxFrame (t.initiate m).codec).toNat) :
    ¬(t.initiate m).stream.Lags (t.initiate m).codec := by
  have hopen : t.stream.state ≠ .closed := by
    rw [hs]
    exact StreamState.noConfusion
  exact sated (tallies_initiate ht) ((concludes_perform .initiate hopen hnone).open he) (room_initiate hs) hframe

theorem sated_receiveWindowUpdate (hs : t.stream.state ≠ .closed) (ht : t.stream.Tallies) (hnone : t.ending = none)
    (he : (t.receiveWindowUpdate m).ending = none)
    (hframe : 0 < (Codec.maxFrame (t.receiveWindowUpdate m).codec).toNat) :
    ¬(t.receiveWindowUpdate m).stream.Lags (t.receiveWindowUpdate m).codec := by
  have htallies : (t.receiveWindowUpdate m).stream.Tallies := (steps_receiveWindowUpdate t).tallies ht
  unfold receiveWindowUpdate at he hframe htallies ⊢
  split at he
  · rename_i h
    rw [if_pos h] at hframe htallies ⊢
    exact sated htallies ((concludes_sendBody hs hnone).open he) (room_sendBody m t) hframe
  · rename_i h
    rw [if_neg h] at hframe ⊢
    intro hlags
    exact sated ht hs (fun hopened => absurd ⟨hopened, hlags.sent, hlags.unsent⟩ h) hframe hlags

end Turn

namespace Session

variable {κ τ ω σ : Type} {s s' u : Session κ τ ω σ} {x : Stream}

def Tallies (s : Session κ τ ω σ) : Prop := ∀ x ∈ s.inPlay, x.Tallies

theorem mem_entries_turned {t : Turn κ} {e : Registry.Entry Stream} (he : e ∈ (s.turned t).registry.entries) :
    ∃ x ∈ s.registry.entries, x.id = e.id ∧
      (x.item.ticket = t.stream.ticket ∧ e.item = t.stream ∨ x.item.ticket ≠ t.stream.ticket ∧ e.item = x.item) := by
  obtain ⟨x, hx, rfl⟩ := List.mem_map.1 he
  refine ⟨x, hx, ?_⟩
  split
  · rename_i hticket
    exact ⟨rfl, Or.inl ⟨beq_iff_eq.1 hticket, rfl⟩⟩
  · rename_i hticket
    exact ⟨rfl, Or.inr ⟨fun heq => hticket (beq_iff_eq.2 heq), rfl⟩⟩

variable [Codec κ]

theorem Prompt.tallies {act : Metadata → Turn κ → Turn κ} (ha : s.Prompt x act) (hx : x.Tallies) :
    (act s.metadata (s.turnOf x)).stream.Tallies := by
  cases ha with
  | start => exact Turn.tallies_initiate hx
  | window => exact (Turn.steps_receiveWindowUpdate _).tallies hx
  | head fields => exact (Turn.steps_receiveHeaders _ fields).tallies hx
  | data bytes length => exact (Turn.steps_receiveData _ bytes length).tallies hx

theorem Prompt.open {act : Metadata → Turn κ → Turn κ} (ha : s.Prompt x act) (hx : x.state ≠ .closed)
    (he : (act s.metadata (s.turnOf x)).ending = none) : (act s.metadata (s.turnOf x)).stream.state ≠ .closed := by
  cases ha with
  | start => exact (Turn.concludes_perform .initiate hx rfl).open he
  | window => exact (Turn.concludes_perform .receiveWindowUpdate hx rfl).open he
  | head fields => exact (Turn.concludes_perform (.receiveHeaders fields) hx rfl).open he
  | data bytes length => exact (Turn.concludes_perform (.receiveData bytes length) hx rfl).open he

theorem Change.tallies (h : Change s s') (ht : s.Tidy) (hs : s.Tallies) : s'.Tallies := by
  cases h with
  | clerical h => exact fun x hx => hs x (h.inPlay.subset hx)
  | lose h => exact fun x hx => hs x (h.inPlay.subset hx)
  | queue request =>
    intro x hx
    rcases List.mem_cons.1 ((inPlay_queued request s).mem_iff.1 hx) with rfl | hx
    · exact ⟨fun _ => ⟨rfl, rfl⟩, StreamState.noConfusion⟩
    · exact hs x hx
  | turn hx ha =>
    intro y hy
    rcases (mem_inPlay_turned ht hx ha.continues.ticket).1 hy with rfl | ⟨hy, -⟩
    · exact ha.tallies (hs _ hx)
    · exact hs y hy
  | settle => exact hs
  | conclude hx => exact fun y hy => hs y ((clerical_remove hx).inPlay.subset hy)

theorem Changes.tallies (h : Changes s s') (ht : s.Tidy) (hs : s.Tallies) : s'.Tallies := by
  induction h with
  | refl => exact hs
  | tail hbefore hchange ih => exact hchange.tallies (Changes.tidy hbefore ht) ih

/-! Traits that no exchange acquires. -/

/-- A trait that no exchange is made with, and that none gets, neither by what is said to the codec nor by a turn that
does not end it. The codec is of a certain kind meanwhile. -/
structure Recedes (κ τ ω σ : Type) [Codec κ] (via : Footing κ → Footing κ → Prop) (kind : κ → Prop)
    (trait : κ → Stream → Prop) : Prop where
  remains : ∀ {a b}, via a b → kind a.1 → kind b.1
  codec : ∀ {a b x}, via a b → trait b.1 x → trait a.1 x
  newcomer : ∀ (s : Session κ τ ω σ) request, ¬trait s.codec (s.newcomer request)
  turn : ∀ {s : Session κ τ ω σ} {x act}, s.Prompt x act → x.Tallies → kind s.codec →
    via s.footing (s.turned (act s.metadata (s.turnOf x))).footing → (act s.metadata (s.turnOf x)).ending = none →
    trait (act s.metadata (s.turnOf x)).codec (act s.metadata (s.turnOf x)).stream → trait s.codec x

variable {via : Footing κ → Footing κ → Prop} {kind : κ → Prop} {trait : κ → Stream → Prop}

def having (trait : κ → Stream → Prop) (s : Session κ τ ω σ) : Set UInt32 :=
  { id | ∃ e ∈ s.registry.entries, e.id = id ∧ trait s.codec e.item }

theorem having_of_entries (hr : Recedes κ τ ω σ via kind trait) (hf : via s.footing s'.footing)
    (hentries : ∀ e ∈ s'.registry.entries, ∃ x ∈ s.registry.entries, e.id = x.id ∧ e.item = x.item) :
    s'.having trait ⊆ s.having trait := by
  rintro id ⟨e, he, rfl, htrait⟩
  obtain ⟨x, hx, hid, hitem⟩ := hentries e he
  exact ⟨x, hx, hid.symm, hitem ▸ hr.codec hf htrait⟩

theorem having_turned (hr : Recedes κ τ ω σ via kind trait) (ht : s.Tidy) (hx : x ∈ s.inPlay)
    {act : Metadata → Turn κ → Turn κ} (ha : s.Prompt x act)
    (hf : via s.footing (s.turned (act s.metadata (s.turnOf x))).footing) {id : UInt32} (hne : id ≠ x.id)
    (hid : id ∈ (s.turned (act s.metadata (s.turnOf x))).having trait) : id ∈ s.having trait := by
  obtain ⟨e, he, rfl, htrait⟩ := hid
  obtain ⟨y, hy, hid, ⟨hticket, -⟩ | ⟨-, hitem⟩⟩ := mem_entries_turned he
  · have heq := ht.eq_of_ticket (mem_inPlay_of_entry hy) hx (hticket.trans ha.continues.ticket)
    exact absurd (hid.symm.trans ((ht.ids y hy).symm.trans (congrArg Stream.id heq))) hne
  · exact ⟨y, hy, hid, hitem ▸ hr.codec hf htrait⟩

/-- Whatever a connection does, a trait that recedes spreads to no other exchange. -/
theorem Proceeds.recedes (hr : Recedes κ τ ω σ via kind trait) (hv : Footing.Sends via) (h : Proceeds via s s')
    (ht : s.Tidy) (hs : s.Tallies) (hk : kind s.codec) : s'.having trait ⊆ s.having trait := by
  induction h with
  | aside h => exact having_of_entries hr h.footing h.entries
  | @trans s u s' h h' ih ih' =>
    have hchanges := h.changes ht
    have hlater := ih' (hchanges.tidy ht) (hchanges.tallies ht hs) (hr.remains (h.footing hv) hk)
    exact fun id hid => ih ht hs hk (hlater hid)
  | lose h => exact having_of_entries hr h.footing h.entries
  | @queue s request =>
    rintro id ⟨e, he, rfl, htrait⟩
    rcases List.mem_append.1 he with he | he
    · exact ⟨e, he, rfl, htrait⟩
    · obtain rfl := List.mem_singleton.1 he
      exact absurd htrait (hr.newcomer s request)
  | @turn s x act hx ha he hf =>
    intro id hid
    by_cases hne : id = x.id
    · obtain ⟨e, hin, rfl, htrait⟩ := hid
      obtain ⟨y, hy, hid, ⟨hticket, hitem⟩ | ⟨hticket, -⟩⟩ := mem_entries_turned hin
      · have heq := ht.eq_of_ticket (mem_inPlay_of_entry hy) hx (hticket.trans ha.continues.ticket)
        have hbefore := hr.turn ha (hs x hx) hk hf he (hitem ▸ htrait)
        exact ⟨y, hy, hid, heq ▸ hbefore⟩
      · have heq := ht.eq_of_id (mem_inPlay_of_entry hy) hx ((ht.ids y hy).trans (hid.trans hne))
        exact absurd (heq ▸ ha.continues.ticket.symm) hticket
    · exact having_turned hr ht hx ha hf hne hid
  | @last s u s' x act hx ha he hf htold h hgone ih =>
    intro id hid
    -- While its observers are told the exchange may still have the trait. It is then taken off the register.
    have hcontinues := ha.continues
    have hturned := ht.turned hx hcontinues.id hcontinues.ticket
    have htold := ih hturned ((Change.turn hx ha).tallies ht hs) (hr.remains hf hk)
    have hleft : id ∈ (s.turned (act s.metadata (s.turnOf x))).having trait :=
      htold (having_of_entries hr h.footing h.entries hid)
    obtain ⟨e, hin, rfl, -⟩ := hid
    exact having_turned hr ht hx ha hf (hgone e hin) hleft
  | settle => exact fun _ hid => hid
  | conclude hx => exact having_of_entries hr (hv.refl _) (clerical_remove hx).entries
  | abort hx => exact having_of_entries hr (hv.refl _) (clerical_remove hx).entries

theorem Disciplined.keeps_place {ledger : Ledger} (hd : s.Disciplined ledger) (ht : s.Tidy) (h : Changes s s')
    {y : Stream} (hy : y ∈ s'.inPlay) (hx : x ∈ s.inPlay) : y.id = x.id ↔ y.ticket = x.ticket := by
  obtain ⟨new, hd'⟩ := h.disciplined ht hd
  have hlater := hd'.known y hy
  have hfirst := List.mem_append_right new (hd.known x hx)
  constructor
  · intro hid
    exact congrArg Prod.snd (List.inj_on_of_nodup_map hd'.ids hlater hfirst hid)
  · intro hticket
    exact congrArg Prod.fst (List.inj_on_of_nodup_map hd'.tickets hlater hfirst hticket)

/-! The two traits. -/

theorem recedes_closed (via : Footing κ → Footing κ → Prop) :
    Recedes κ τ ω σ via (fun _ => True) fun _ x => x.state = .closed where
  remains := fun _ _ => trivial
  codec := fun _ h => h
  newcomer := fun _ _ => StreamState.noConfusion
  turn := fun ha _ _ _ he h => Decidable.byContradiction fun hopen => ha.open hopen he h

end Session

/-- A codec that opens no window by what a connection says to it, once the window is exhausted, nor takes all room from
its frames. -/
structure Codec.Exhausts (κ : Type) [Wire.Codec κ] : Prop where
  windows : ∀ id, Codec.Keeps fun c : κ => (Wire.Codec.window c id).toInt ≤ 0
  frames : Codec.Keeps fun c : κ => 0 < (Wire.Codec.maxFrame c).toNat

def Codec.Spends {κ : Type} [Wire.Codec κ] (c c' : κ) : Prop :=
  (∀ id, (Wire.Codec.window c id).toInt ≤ 0 → (Wire.Codec.window c' id).toInt ≤ 0) ∧
    (0 < (Wire.Codec.maxFrame c).toNat → 0 < (Wire.Codec.maxFrame c').toNat)

/-- A codec in which sending opens no window. -/
structure Codec.Thrifty (κ : Type) [Wire.Codec κ] : Prop where
  headers : ∀ (c : κ) id fields last, Spends c (Wire.Codec.sendHeaders c id fields last).2
  data : ∀ (c : κ) id bytes last, Spends c (Wire.Codec.sendData c id bytes last).2
  reset : ∀ (c : κ) id code, Spends c (Wire.Codec.reset c id code).2

section

variable {κ : Type} [Codec κ]

theorem Codec.Spends.refl (c : κ) : Codec.Spends c c := ⟨fun _ h => h, fun h => h⟩

theorem Codec.Spends.trans {a b c : κ} (h : Codec.Spends a b) (h' : Codec.Spends b c) : Codec.Spends a c :=
  ⟨fun id hw => h'.1 id (h.1 id hw), fun hf => h'.2 (h.2 hf)⟩

theorem Stream.Lags.of_spends {c c' : κ} {x y : Stream} (h : y.Lags c') (hspends : Codec.Spends c c')
    (hid : y.id = x.id) (hsent : y.requestSent = x.requestSent) (hunsent : y.unsent = x.unsent) : x.Lags c where
  sent := hsent ▸ h.sent
  unsent := hunsent ▸ h.unsent
  window := Int.not_le.1 fun hshut => Int.not_lt.2 (hspends.1 x.id hshut) (hid ▸ h.window)

theorem Codec.Thrifty.sends (h : Codec.Thrifty κ) :
    Footing.Sends fun a b : Footing κ => Codec.Spends a.1 b.1 ∧ b.2 = a.2 where
  refl := fun a => ⟨.refl a.1, rfl⟩
  trans := fun h h' => ⟨h.1.trans h'.1, h'.2.trans h.2⟩
  headers := fun c _ id fields last => ⟨h.headers c id fields last, rfl⟩
  data := fun c _ id bytes last => ⟨h.data c id bytes last, rfl⟩
  reset := fun c _ id code => ⟨h.reset c id code, rfl⟩

theorem Codec.Exhausts.works (h : Codec.Exhausts κ) : Footing.Works fun a b : Footing κ => Codec.Spends a.1 b.1 where
  refl := fun a => .refl a.1
  trans := .trans
  headers := fun c _ id fields last =>
    ⟨fun i => (h.windows i).sendHeaders c id fields last, h.frames.sendHeaders c id fields last⟩
  data := fun c _ id bytes last => ⟨fun i => (h.windows i).sendData c id bytes last, h.frames.sendData c id bytes last⟩
  reset := fun c _ id code => ⟨fun i => (h.windows i).reset c id code, h.frames.reset c id code⟩
  takeOutput := fun c _ => ⟨fun i => (h.windows i).takeOutput c, h.frames.takeOutput c⟩
  initiate := fun c _ settings => ⟨fun i => (h.windows i).initiate c settings, h.frames.initiate c settings⟩
  close := fun c _ code => ⟨fun i => (h.windows i).close c code, h.frames.close c code⟩
  acknowledge := fun c _ length id =>
    ⟨fun i => (h.windows i).acknowledge c length id, h.frames.acknowledge c length id⟩

theorem Codec.Exhausts.thrifty (h : Codec.Exhausts κ) : Codec.Thrifty κ where
  headers := fun c id fields last => h.works.headers c false id fields last
  data := fun c id bytes last => h.works.data c false id bytes last
  reset := fun c id code => h.works.reset c false id code

end

namespace Session

variable {κ τ ω σ : Type} [Codec κ] {s s' u w : Session κ τ ω σ} {r : Reaction κ τ ω σ} {x : Stream}
  {via : Footing κ → Footing κ → Prop}

/-- Nothing holds up a request that was not held up before. -/
theorem recedes_lags (hspends : ∀ a b, via a b → Codec.Spends a.1 b.1) :
    Recedes κ τ ω σ via (fun c => 0 < (Codec.maxFrame c).toNat) fun c x => x.Lags c where
  remains := fun h => (hspends _ _ h).2
  codec := fun h hlags => hlags.of_spends (hspends _ _ h) rfl rfl rfl
  newcomer := fun _ _ h => Bool.false_ne_true h.sent
  turn := by
    intro s x act ha htallies hframe hf he hlags
    have hspent : Codec.Spends s.codec (act s.metadata (s.turnOf x)).codec := hspends _ _ hf
    cases ha with
    | start =>
      by_cases hs : x.state = .pending
      · exact absurd hlags (Turn.sated_initiate hs htallies rfl he (hspent.2 hframe))
      · have hstray : (s.turnOf x).initiate s.metadata = (s.turnOf x).warnStray _ := if_pos hs
        rw [hstray] at hlags
        exact hlags
    | window =>
      by_cases hs : x.state = .closed
      · have hidle : (s.turnOf x).receiveWindowUpdate s.metadata = s.turnOf x :=
          if_neg fun h => StreamState.noConfusion (hs.symm.trans h.1)
        rw [hidle] at hlags
        exact hlags
      · exact absurd hlags (Turn.sated_receiveWindowUpdate hs htallies rfl he (hspent.2 hframe))
    | head fields =>
      obtain ⟨hid, hsent, hunsent⟩ := (Turn.steps_receiveHeaders (s.turnOf x) fields).unsent (m := s.metadata)
      exact hlags.of_spends hspent hid hsent hunsent
    | data bytes length =>
      obtain ⟨hid, hsent, hunsent⟩ := (Turn.steps_receiveData (s.turnOf x) bytes length).unsent (m := s.metadata)
      exact hlags.of_spends hspent hid hsent hunsent

structure Resuming (via : Footing κ → Footing κ → Prop) (r : Reaction κ τ ω σ) (s : Session κ τ ω σ) : Prop extends
    Poised via r s where
  tallies : s.Tallies
  running : ∀ e ∈ s.registry.entries, e.item.state ≠ .closed
  frames : 0 < (Codec.maxFrame s.codec).toNat

theorem Resuming.later (h : s.Resuming via r) (hv : Footing.Sends via)
    (hspends : ∀ a b, via a b → Codec.Spends a.1 b.1) (hp : Proceeds via s s') : s'.Resuming via r where
  toPoised := h.toPoised.later hv hp
  tallies := (hp.changes h.tidy).tallies h.tidy h.tallies
  running := by
    intro e he hclosed
    obtain ⟨x, hx, -, hs⟩ := hp.recedes (recedes_closed via) hv h.tidy h.tallies trivial ⟨e, he, rfl, hclosed⟩
    exact h.running x hx hs
  frames := (hspends _ _ (hp.footing hv)).2 h.frames

abbrev lagging (s : Session κ τ ω σ) : Set UInt32 := s.having fun c x => x.Lags c

theorem Resuming.lagging (h : s.Resuming via r) (hv : Footing.Sends via)
    (hspends : ∀ a b, via a b → Codec.Spends a.1 b.1) (hp : Proceeds via s s') : s'.lagging ⊆ s.lagging :=
  hp.recedes (recedes_lags hspends) hv h.tidy h.tallies h.frames

section

variable (hv : Footing.Sends via) (hspends : ∀ a b, via a b → Codec.Spends a.1 b.1)

include hv hspends

theorem Resuming.sated_turn (h : s.Resuming via r) {ticket : Ticket} (hfind : s.streamOf ticket = some x)
    (hs : x.state ≠ .closed) : x.id ∉ (s.turn r ticket Turn.receiveWindowUpdate).2.lagging := by
  obtain ⟨hx, -⟩ := mem_of_streamOf hfind
  have hprompt : s.Prompt x Turn.receiveWindowUpdate := .window
  let t := Turn.receiveWindowUpdate s.metadata (s.turnOf x)
  rintro ⟨e, he, hid, hlags⟩
  cases hending : t.ending with
  | none =>
    have hturn : s.turn r ticket Turn.receiveWindowUpdate = (false, s.turned t) := turn_of_open r hfind hending
    rw [hturn] at he hlags
    obtain ⟨y, hy, hid', ⟨-, hitem⟩ | ⟨hticket, -⟩⟩ := mem_entries_turned he
    · have hspent := hspends _ _ ((Turn.follows_receiveWindowUpdate hv) s.metadata (s.turnOf x) s.loop.stopped)
      rw [hitem] at hlags
      exact Turn.sated_receiveWindowUpdate hs (h.tallies x hx) rfl hending (hspent.2 h.frames) hlags
    · have heq := h.tidy.eq_of_id (mem_inPlay_of_entry hy) hx ((h.tidy.ids y hy).trans (hid'.trans hid))
      exact hticket (heq ▸ hprompt.continues.ticket.symm)
  | some ending =>
    have hannounce := (hprompt.accounts ending hending).2.1
    rw [turn_of_ended r hfind hending, if_pos hannounce] at he
    exact ne_of_release x.id _ e he hid

variable [Transport τ]

theorem Resuming.sated_step (h : s.Resuming via r) {ticket : Ticket} (hfind : s.streamOf ticket = some x)
    (hs : x.state ≠ .closed) : x.id ∉ (s.step r ticket Turn.receiveWindowUpdate).lagging := by
  have hturned := h.sated_turn hv hspends hfind hs
  rw [step_eq]
  split
  · have hturn : Proceeds via s (s.turn r ticket Turn.receiveWindowUpdate).2 :=
      proceeds_turn hv h.toPoised (Turn.follows_receiveWindowUpdate hv) fun _ _ => .window
    have hlater := h.later hv hspends hturn
    exact fun hlags => hturned (hlater.lagging hv hspends (proceeds_admitQueued hv hlater.toPoised) hlags)
  · exact hturned

/-- An exchange whose turn has come is not held up any more, whatever happened to it before. -/
theorem Resuming.sated_resume {ledger : Ledger} (h : s.Resuming via r) (hd : s.Disciplined ledger)
    (hp : Proceeds via s w) (hx : x ∈ s.inPlay) : x.id ∉ (w.resume r x.ticket).lagging := by
  have hw := h.later hv hspends hp
  have hplace : ∀ y ∈ w.inPlay, y.id = x.id ↔ y.ticket = x.ticket := fun y hy =>
    hd.keeps_place h.tidy (hp.changes h.tidy) hy hx
  have hticket : ∀ e ∈ w.registry.entries, e.id = x.id → e.item.ticket = x.ticket := fun e he hid =>
    (hplace e.item (mem_inPlay_of_entry he)).1 ((hw.tidy.ids e he).trans hid)
  unfold resume
  split
  · rename_i hgone
    rintro ⟨e, he, hid, -⟩
    rw [streamOf_eq_find] at hgone
    exact List.find?_eq_none.1 hgone e.item (mem_inPlay_of_entry he) (beq_iff_eq.2 (hticket e he hid))
  · rename_i y hfind
    obtain ⟨hy, hsame⟩ := mem_of_streamOf hfind
    split
    · rename_i hclosed
      rintro ⟨e, he, hid, -⟩
      have heq := hw.tidy.eq_of_ticket (mem_inPlay_of_entry he) hy ((hticket e he hid).trans hsame.symm)
      exact hw.running e he (heq ▸ beq_iff_eq.1 hclosed)
    · rename_i hopen
      rw [← (hplace y hy).2 hsame]
      exact hw.sated_step hv hspends hfind fun hclosed => hopen (beq_iff_eq.2 hclosed)

/-- When all were tried none is held up. -/
theorem Resuming.sated_resumeAll {ledger : Ledger} (h : s.Resuming via r) (hd : s.Disciplined ledger) (id : UInt32) :
    id ∉ (s.resumeAll r).lagging := by
  intro hlags
  obtain ⟨x, hx, rfl, -⟩ := h.lagging hv hspends (proceeds_resumeAll hv h.toPoised) hlags
  have hticket : x.item.ticket ∈ s.registry.tickets := by
    rw [Registry.tickets_eq]
    exact List.mem_map_of_mem hx
  obtain ⟨before, after, hsplit⟩ := List.append_of_mem hticket
  -- The exchange was tried between those before and those after it, and nothing holds it up again.
  let tried := (before.foldl (resume r) (s.hold s.registry.tickets)).resume r x.item.ticket
  have hheld := proceeds_hold hv s.registry.tickets s
  have hbefore := hheld.next hv h.toPoised fun h => proceeds_resumeEach hv h before
  have htried : tried.Resuming via r := (h.later hv hspends hbefore).later hv hspends
    (proceeds_resume hv (h.later hv hspends hbefore).toPoised x.item.ticket)
  have hafter := (proceeds_resumeEach hv htried.toPoised after).next hv htried.toPoised fun h =>
    proceeds_letGoEach hv h s.registry.tickets
  have heq : s.resumeAll r = s.registry.tickets.foldl (fun s ticket => s.letGo ticket) (after.foldl (resume r) tried) := by
    rw [resumeAll_eq]
    refine congrArg (s.registry.tickets.foldl _) ?_
    rw [congrArg (List.foldl (resume r) _) hsplit]
    exact List.foldl_append
  rw [heq] at hlags
  have hlagging := htried.lagging hv hspends hafter hlags
  rw [← h.tidy.ids x hx] at hlagging
  exact h.sated_resume hv hspends hd hbefore (mem_inPlay_of_entry hx) hlagging

theorem Resuming.sated_windowUpdated {ledger : Ledger} (h : s.Resuming via r) (hd : s.Disciplined ledger)
    {event : Event} (he : event.body = .windowUpdated) {id : UInt32} (hid : event.stream = 0 ∨ id = event.stream) :
    id ∉ (s.handle r event).lagging := by
  unfold handle
  rw [he]
  dsimp only
  split
  · exact h.sated_resumeAll hv hspends hd id
  · rename_i hone
    obtain rfl := hid.resolve_left hone
    unfold withStream
    split
    · rename_i x hfind
      obtain ⟨e, hin, heid, rfl⟩ := mem_of_find hfind
      rw [← heid, ← h.tidy.ids e hin]
      exact h.sated_step hv hspends (h.tidy.streamOf (mem_inPlay_of_entry hin)) (h.running e hin)
    · rename_i hnone
      rintro ⟨e, hin, heid, -⟩
      have hgone := Registry.findEntry_eq_none_iff.1 (Option.map_eq_none_iff.1 hnone)
      exact hgone e hin heid

end

def Demand.Unfed : Demand τ ω → Prop
  | .operation (.bytesReceived _) => False
  | _ => True

variable [Transport τ] {s₀ v : Session κ τ ω σ}

/-- Observers are told through the loop, or what they do when they are told at once opens no window. -/
def Abstains (r : Reaction κ τ ω σ) (s : Session κ τ ω σ) : Prop :=
  s.loop.stopped = false ∨ Codec.Exhausts κ ∧ ∀ o news w,
    Sheltered Demand.Unfed (fun (w : Session κ τ ω σ) d => Codec.Spends w.codec d.codec) w (r.run o news w)

theorem Abstains.poised (hκ : Codec.Thrifty κ) (hq : s.Abstains r) (ht : s.Tidy) :
    ∃ via : Footing κ → Footing κ → Prop,
      Footing.Sends via ∧ (∀ a b, via a b → Codec.Spends a.1 b.1) ∧ s.Poised via r := by
  rcases hq with hrunning | ⟨hexhausts, hruns⟩
  · exact ⟨_, hκ.sends, fun _ _ h => h.1, ht, Or.inl ⟨hrunning, fun _ _ h hlive => h.2.trans hlive⟩⟩
  · refine ⟨_, hexhausts.works.toSends, fun _ _ h => h, ht, Or.inr fun o news w hw => ?_⟩
    exact (hruns o news w).proceeds hexhausts.works (fun _ h => h.elim) (fun _ _ h => h) (fun _ _ => .refl _) hw

theorem proceeds_batch (h₀ : Created s₀) (h : FreeRun s₀ s) (hr : ∀ o news w, FreeRun w (r.run o news w)) (data : Bytes)
    (events : List Event) : Proceeds (fun _ _ => True) s₀ ((s.received data).handleAll r events) := by
  have hreceived : Proceeds (fun _ _ => True) s₀ (s.received data) :=
    (FreeRun.proceeds h h₀.tidy).trans (.of_same rfl rfl rfl rfl (fun h => h) (.cons trivial .refl) rfl trivial)
  have hpoised : (s.received data).Poised (fun _ _ => True) r :=
    ⟨(hreceived.changes h₀.tidy).tidy h₀.tidy, Or.inr fun o news w hw => (hr o news w).proceeds hw⟩
  exact hreceived.trans (proceeds_handleAll Footing.works_true hpoised events)

theorem Proceeds.resuming (h : Proceeds (fun _ _ => True) s₀ u) (h₀ : Created s₀) (hκ : Codec.Thrifty κ)
    (hframe : 0 < (Codec.maxFrame u.codec).toNat) (hq : u.Abstains r) :
    ∃ via : Footing κ → Footing κ → Prop, Footing.Sends via ∧ (∀ a b, via a b → Codec.Spends a.1 b.1) ∧
      u.Resuming via r := by
  have htallies₀ : s₀.Tallies := fun x hx => absurd (h₀.inPlay ▸ hx) List.not_mem_nil
  have hchanges := h.changes h₀.tidy
  obtain ⟨via, hsends, hspends, hpoised⟩ := hq.poised hκ (hchanges.tidy h₀.tidy)
  refine ⟨via, hsends, hspends, hpoised, hchanges.tallies h₀.tidy htallies₀, fun e he hclosed => ?_, hframe⟩
  obtain ⟨x, hx, -⟩ := h.recedes (recedes_closed _) Footing.works_true.toSends h₀.tidy htallies₀ trivial
    ⟨e, he, rfl, hclosed⟩
  exact absurd (h₀.inPlay ▸ mem_inPlay_of_entry hx) List.not_mem_nil

/-- After the window of one exchange or of all has opened, none of those that run is held up by anything but its window,
and among the others none that was not so before. -/
theorem run_resumption (h₀ : Created s₀) (h : FreeRun s₀ s) (hr : ∀ o news w, FreeRun w (r.run o news w)) (data : Bytes)
    (before : List Event) {event : Event} (he : event.body = .windowUpdated)
    (hu : u = (s.received data).handleAll r before) (hs : u.Serving) (hκ : Codec.Thrifty κ)
    (hframe : 0 < (Codec.maxFrame u.codec).toNat) (hq : u.Abstains r)
    (hv : v = (s.received data).handleAll r (before ++ [event])) :
    (∀ e ∈ v.registry.entries, e.item.requestSent = true → event.stream = 0 ∨ e.id = event.stream →
      e.item.unsent = [] ∨ (Codec.window v.codec e.id).toInt ≤ 0) ∧
    ∀ e ∈ v.registry.entries, e.item.Lags v.codec → ∃ x ∈ u.registry.entries, x.id = e.id ∧ x.item.Lags u.codec := by
  have hreached : Proceeds (fun _ _ => True) s₀ u := hu ▸ proceeds_batch h₀ h hr data before
  have hchanges := hreached.changes h₀.tidy
  have htidy := hchanges.tidy h₀.tidy
  obtain ⟨ledger, hd⟩ := hchanges.disciplined h₀.tidy h₀.disciplined
  obtain ⟨via, hsends, hspends, hresuming⟩ := hreached.resuming h₀ hκ hframe hq
  -- What the relation says of the codec depends on whether observers can get in between.
  let told := u.enter (.dispatched event)
  have hentered : Proceeds via u told := .enter hsends u trivial
  have htold := hresuming.later hsends hspends hentered
  have heq : v = told.handle r event := by
    rw [hv, handleAll_concat r before event (hu ▸ hs), ← hu]
  have hwhole := hentered.trans (proceeds_windowUpdated hsends htold.toPoised he)
  have htidyLater : v.Tidy := heq ▸ (hwhole.changes htidy).tidy htidy
  refine ⟨fun e hin hsent hconcerned => ?_, fun e hin hlags => ?_⟩
  · have hsated : e.id ∉ v.lagging := by
      obtain ⟨new, hd'⟩ := (hentered.changes htidy).disciplined htidy hd
      rw [heq]
      exact htold.sated_windowUpdated hsends hspends hd' he hconcerned
    by_contra hheld
    obtain ⟨hunsent, hopen⟩ := not_or.1 hheld
    refine hsated ⟨e, hin, rfl, hsent, hunsent, ?_⟩
    rw [htidyLater.ids e hin]
    exact Int.not_le.1 hopen
  · have hlagging : e.id ∈ (told.handle r event).lagging := heq ▸ ⟨e, hin, rfl, hlags⟩
    obtain ⟨x, hx, hid, hbefore⟩ := hresuming.lagging hsends hspends hwhole hlagging
    exact ⟨x, hx, hid, hbefore⟩

theorem window_setWindow (c : Scripted.Codec) (i id : UInt32) (window : Int32) :
    (c.setWindow i window).window id = if i = id then window else c.window id := by
  unfold Scripted.Codec.setWindow Scripted.Codec.window
  by_cases hid : i = id
  · simp [hid]
  · have hother : (fun a : UInt32 × Int32 => decide ((a.1 != i) = true ∧ (a.1 == id) = true)) = fun a => a.1 == id := by
      funext a
      by_cases ha : a.1 = id
      · simp [ha, Ne.symm hid]
      · simp [ha]
    have hskip : ((i, window) :: c.windows.filter (·.1 != i)).find? (·.1 == id) = c.windows.find? (·.1 == id) := by
      rw [List.find?_cons_of_neg (by simpa using hid), List.find?_filter, hother]
    rw [hskip, if_neg hid]

theorem exhausts_scripted : Codec.Exhausts Scripted.Codec where
  windows := by
    intro id
    refine keeps_script (fun _ _ _ _ _ h => h) fun c i length hfits h => ?_
    change ((c.setWindow i (c.window i - Int32.ofNat length)).window id).toInt ≤ 0
    rw [window_setWindow]
    split
    · rename_i hid
      subst hid
      have hnone : length = 0 := by
        unfold Scripted.Codec.fits at hfits
        rw [Bool.and_eq_true, decide_eq_true_eq] at hfits
        have hlength := hfits.1
        have hshut : (c.window i).toInt ≤ 0 := h
        omega
      rw [hnone, show c.window i - Int32.ofNat 0 = c.window i from Int32.sub_zero _]
      exact h
    · exact h
  frames := keeps_script (fun _ _ _ _ _ h => h) fun _ _ _ _ h => h

/-- Two uploads are held up and a third one waits. When the window opens, the first one fails, on a stopped loop its
observer submits a fourth in the middle of it, the third starts in its room, and the second goes on as far as its window
reaches. -/
theorem run_resumption_scripted :
    ∃ (s₀ s u v : Session Scripted.Codec Scripted.Transport Unit Unit)
      (r : Reaction Scripted.Codec Scripted.Transport Unit Unit) (event : Event), Created s₀ ∧ FreeRun s₀ s ∧
        (∀ o news w, FreeRun w (r.run o news w)) ∧ event.body = .windowUpdated ∧ event.stream = 0 ∧
        u = (s.received []).handleAll r [] ∧ u.Serving ∧ Codec.Thrifty Scripted.Codec ∧
        0 < (Codec.maxFrame u.codec).toNat ∧ u.Abstains r ∧ u.loop.stopped = true ∧
        u.registry.entries.map (fun e => (e.id, e.item.state, e.item.unsent)) =
          [(1, .opened, ascii "hello"), (3, .opened, ascii "world"), (5, .pending, ascii "again")] ∧
        v = (s.received []).handleAll r ([] ++ [event]) ∧
        v.registry.entries.map (fun e => (e.id, e.item.state, e.item.unsent)) =
          [(3, .opened, ascii "rld"), (5, .halfClosed, []), (7, .pending, ascii "late")] ∧
        ∀ e ∈ v.registry.entries, e.item.requestSent = true →
          e.item.unsent = [] ∨ (Codec.window v.codec e.id).toInt ≤ 0 := by
  let upload (body : Bytes) : Request := { url := ascii "https://example.com/", body }
  let r₀ : Reaction Scripted.Codec Scripted.Transport Unit Unit := ⟨fun _ _ s => s⟩
  let r : Reaction Scripted.Codec Scripted.Transport Unit Unit :=
    ⟨fun _ _ s => (s.submit r₀ (upload (ascii "late"))).2⟩
  have hr₀ : ∀ o news w, FreeRun w (r₀.run o news w) := fun _ _ w => .refl w
  have hr : ∀ o news w, FreeRun w (r.run o news w) := fun _ _ w =>
    (Activity.refl w).meet r₀ hr₀ (.operation (.submit (upload (ascii "late")))) trivial
  let s₀ : Session Scripted.Codec Scripted.Transport Unit Unit := fresh {
    localLimit := 2
    defaultWindow := 0
    arrival := .events [{ body := .settingsAcknowledged }] }
  let ready := s₀.performAll r [.established (some {}), .bytesReceived [], .submit (upload (ascii "hello")),
    .submit (upload (ascii "world")), .submit (upload (ascii "again")), .observe 0 ()]
  let widened : Drift Scripted.Codec Scripted.Transport Unit Unit := .scripted {
    localLimit := 2
    windows := [(1, 100), (3, 2), (5, 100)]
    data := { queue := [-1] } }
  let s := ({ ready with loop := ready.loop.stop } : Session Scripted.Codec Scripted.Transport Unit Unit).drift widened
  let event : Event := { body := .windowUpdated }
  let u := (s.received []).handleAll r []
  let v := (s.received []).handleAll r ([] ++ [event])
  have hs : FreeRun s₀ s := (Activity.performAll hr (fun _ _ => trivial) s₀).stop.drift widened
  have hserving : u.Serving := by
    constructor
    · decide +kernel
    · decide +kernel
  have hthrifty := exhausts_scripted.thrifty
  have hframe : 0 < (Codec.maxFrame u.codec).toNat := by decide +kernel
  have habstains : u.Abstains r := Or.inr ⟨exhausts_scripted, fun _ _ w =>
    (Sheltered.refl w).meet r₀ (fun _ _ w => .refl w) (.operation (.submit (upload (ascii "late")))) trivial⟩
  have hbefore : u.registry.entries.map (fun e => (e.id, e.item.state, e.item.unsent)) =
      [(1, .opened, ascii "hello"), (3, .opened, ascii "world"), (5, .pending, ascii "again")] := by decide +kernel
  have hafter : v.registry.entries.map (fun e => (e.id, e.item.state, e.item.unsent)) =
      [(3, .opened, ascii "rld"), (5, .halfClosed, []), (7, .pending, ascii "late")] := by decide +kernel
  have hopened : event.body = .windowUpdated := rfl
  obtain ⟨hresumed, -⟩ := run_resumption (created_fresh _) hs hr [] [] hopened rfl hserving hthrifty hframe habstains
    (show v = _ from rfl)
  exact ⟨s₀, s, u, v, r, event, created_fresh _, hs, hr, rfl, rfl, rfl, hserving, hthrifty, hframe, habstains,
    by decide +kernel, hbefore, rfl, hafter, fun e he hsent => hresumed e he hsent (Or.inl rfl)⟩

end Session

end Multiplex

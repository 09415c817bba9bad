import Multiplex.Proofs.Discipline
import Multiplex.Proofs.Head
import Multiplex.Proofs.Proceedings

/-! Whose request an id stands for. There is a table of the ids that a connection gave out, each with its request, and
whatever its record says about an id is said about that request: the head that was sent under it, and why the request
was aborted. -/
namespace Multiplex

open Bytes Wire

abbrev IdTable := List (UInt32 × Ticket × Request)

/-- A head is that of a request in the table, and an exchange that was aborted has the reason before it on record. -/
def Entry.Accounted (base : Url) (table : IdTable) (e : Entry) (earlier : History) : Prop :=
  match e with
  | .call (.headers id fields last _) => ∃ ticket request, (id, ticket, request) ∈ table ∧ request.Head base fields last
  | .settled ticket outcome => outcome.reason = .reset →
      ∃ id request, (id, ticket, request) ∈ table ∧ earlier.Aborts id outcome.causes
  | _ => True

section

variable {base : Url} {table : IdTable} {e : Entry} {earlier : History}

theorem Entry.Accounted.mono {table' : IdTable} (hsub : table ⊆ table') (h : e.Accounted base table earlier) :
    e.Accounted base table' earlier := by
  unfold Entry.Accounted at h ⊢
  split at h
  · obtain ⟨ticket, request, hm, hhead⟩ := h
    exact ⟨ticket, request, hsub hm, hhead⟩
  · intro hr
    obtain ⟨id, request, hm, haborts⟩ := h hr
    exact ⟨id, request, hsub hm, haborts⟩
  · trivial

theorem Entry.Silent.accounted (h : e.Silent) (base : Url) (table : IdTable) (earlier : History) :
    e.Accounted base table earlier := by
  unfold Entry.Accounted
  split
  · exact h.elim
  · exact h.elim
  · trivial

theorem Entry.OfTurn.accounted {id : UInt32} {ticket : Ticket} {request : Request} (h : e.OfTurn id)
    (hheads : e.HeadOf base request) (hm : (id, ticket, request) ∈ table) (earlier : History) :
    e.Accounted base table earlier := by
  unfold Entry.Accounted
  split
  · rename_i i fields last ret
    obtain rfl : i = id := h
    exact ⟨ticket, request, hm, hheads i fields last ret rfl⟩
  · exact h.elim
  · trivial

theorem History.Extends.and {p q : Entry → Prop} {h h' : History} (hp : h.Extends p h') (hq : h.Extends q h') :
    h.Extends (fun e => p e ∧ q e) h' := by
  obtain ⟨new, rfl, hnew⟩ := hp
  obtain ⟨new', heq, hnew'⟩ := hq
  obtain rfl := List.append_cancel_right heq
  exact ⟨new, rfl, fun e he => ⟨hnew e he, hnew' e he⟩⟩

end

namespace Session

variable {κ τ ω σ : Type} {s s' u : Session κ τ ω σ} {x : Stream} {ticket : Ticket} {outcome : Outcome} {base : Url}
  {table : IdTable} {request : Request}

/-- Every exchange is in the table, which has no id and no place twice, and the record is accounted for by it. -/
structure KeepsTable (base : Url) (table : IdTable) (s : Session κ τ ω σ) : Prop where
  address : s.metadata.baseUrl = base
  known : ∀ x ∈ s.inPlay, (x.id, x.ticket, x.request) ∈ table
  issued : ∀ p ∈ table, p.1 < s.nextId ∧ p.2.1 < s.completions.length
  ids : (table.map fun p => p.1).Nodup
  tickets : (table.map fun p => p.2.1).Nodup
  accounted : s.history.Grounded (Entry.Accounted base table)

namespace KeepsTable

theorem eq_of_id (h : s.KeepsTable base table) {p q : UInt32 × Ticket × Request} (hp : p ∈ table) (hq : q ∈ table)
    (hid : p.1 = q.1) : p = q := List.inj_on_of_nodup_map h.ids hp hq hid

theorem eq_of_ticket (h : s.KeepsTable base table) {p q : UInt32 × Ticket × Request} (hp : p ∈ table) (hq : q ∈ table)
    (hticket : p.2.1 = q.2.1) : p = q := List.inj_on_of_nodup_map h.tickets hp hq hticket

theorem later (h : s.KeepsTable base table) (haddress : s'.metadata.baseUrl = s.metadata.baseUrl)
    (hplay : ∀ x ∈ s'.inPlay, x ∈ s.inPlay) (hnext : s'.nextId = s.nextId)
    (hlength : s.completions.length ≤ s'.completions.length) (hh : s.history.Extends Entry.Silent s'.history) :
    s'.KeepsTable base table where
  address := haddress.trans h.address
  known := fun x hx => h.known x (hplay x hx)
  issued := by
    rw [hnext]
    exact fun p hp => ⟨(h.issued p hp).1, Nat.lt_of_lt_of_le (h.issued p hp).2 hlength⟩
  ids := h.ids
  tickets := h.tickets
  accounted := h.accounted.extend hh fun _ earlier he => he.accounted base table earlier

theorem aside {via : Footing κ → Footing κ → Prop} (h : s.KeepsTable base table) (ha : Aside via s s') :
    s'.KeepsTable base table :=
  h.later ha.baseUrl ha.inPlay.subset ha.nextId ha.length_le (ha.history.imp fun _ => Entry.Clerical.silent)

theorem removed (h : s.KeepsTable base table) {registry : Registry Stream} {history : History}
    (hx : s.registry.remove x.id = (some x, registry)) (hh : s.history.Extends Entry.Silent history) :
    ({ s with registry, history } : Session κ τ ω σ).KeepsTable base table :=
  h.later rfl (clerical_remove hx).inPlay.subset rfl (Nat.le_refl _) hh

theorem queued (h : s.KeepsTable base table) (request : Request) (hopen : s.refusal = none) :
    (s.queued request).KeepsTable base ((s.nextId, s.completions.length, request) :: table) := by
  have hgrow : s.nextId < (s.queued request).nextId := nextId_lt_next hopen
  have hlength : (s.queued request).completions.length = s.completions.length + 1 := List.length_append
  constructor
  case address => exact h.address
  case known =>
    intro x hx
    rcases List.mem_cons.1 ((inPlay_queued request s).mem_iff.1 hx) with rfl | hx
    · exact List.mem_cons_self
    · exact List.mem_cons_of_mem _ (h.known x hx)
  case issued =>
    rw [hlength]
    refine List.forall_mem_cons.2 ⟨⟨hgrow, Nat.lt_succ_self _⟩, fun p hp => ?_⟩
    exact ⟨UInt32.lt_trans (h.issued p hp).1 hgrow, Nat.lt_succ_of_lt (h.issued p hp).2⟩
  case ids =>
    refine List.nodup_cons.2 ⟨fun hm => ?_, h.ids⟩
    obtain ⟨p, hp, heq⟩ := List.mem_map.1 hm
    exact UInt32.lt_irrefl _ (heq ▸ (h.issued p hp).1)
  case tickets =>
    refine List.nodup_cons.2 ⟨fun hm => ?_, h.tickets⟩
    obtain ⟨p, hp, heq⟩ := List.mem_map.1 hm
    exact Nat.lt_irrefl _ (heq ▸ (h.issued p hp).2)
  case accounted => exact h.accounted.imp fun _ _ _ => Entry.Accounted.mono (List.subset_cons_self _ _)

theorem given (h : s.KeepsTable base table) (haborts : outcome.reason = .reset →
    ∃ id request, (id, ticket, request) ∈ table ∧ s.history.Aborts id outcome.causes) :
    (s.given ticket outcome).KeepsTable base table where
  address := h.address
  known := h.known
  issued := by
    rw [show (s.given ticket outcome).completions.length = s.completions.length from List.length_set]
    exact h.issued
  ids := h.ids
  tickets := h.tickets
  accounted := ⟨haborts, h.accounted⟩

end KeepsTable

theorem Created.keepsTable [Transport τ] (h : Created s) : s.KeepsTable s.metadata.baseUrl [] := by
  obtain ⟨-, -, -, hhistory, -⟩ := h.fields
  constructor
  · rfl
  · rw [h.inPlay]
    exact fun _ hx => absurd hx List.not_mem_nil
  · exact fun _ hp => absurd hp List.not_mem_nil
  · exact List.nodup_nil
  · exact List.nodup_nil
  · rw [hhistory]
    trivial

theorem KeepsTable.head (h : s.KeepsTable base table) {id : UInt32} {ticket : Ticket}
    (hm : (id, ticket, request) ∈ table)
    {fields : Headers} {last : Bool} {ret : Int32} (hsent : .call (.headers id fields last ret) ∈ s.history) :
    request.Head base fields last := by
  obtain ⟨later, earlier, hsplit⟩ := List.append_of_mem hsent
  obtain ⟨ticket', request', hm', hhead⟩ := h.accounted.at hsplit
  obtain ⟨-, rfl⟩ := Prod.mk.inj (Prod.mk.inj (h.eq_of_id hm' hm rfl)).2
  exact hhead

variable [Codec κ]

theorem Prompt.headOf {act : Metadata → Turn κ → Turn κ} (ha : s.Prompt x act) :
    s.history.Extends (Entry.HeadOf s.metadata.baseUrl x.request) (act s.metadata (s.turnOf x)).history := by
  cases ha with
  | start => exact Turn.headOf_initiate s.metadata (s.turnOf x)
  | window => exact (Turn.steps_receiveWindowUpdate _).headless.imp fun _ he => he.headOf _ _
  | head fields => exact (Turn.steps_receiveHeaders _ fields).headless.imp fun _ he => he.headOf _ _
  | data bytes length => exact (Turn.steps_receiveData _ bytes length).headless.imp fun _ he => he.headOf _ _

theorem KeepsTable.turned (h : s.KeepsTable base table) (ht : s.Tidy) {act : Metadata → Turn κ → Turn κ}
    (hx : x ∈ s.inPlay) (ha : s.Prompt x act) : (s.turned (act s.metadata (s.turnOf x))).KeepsTable base table where
  address := h.address
  known := by
    have hcontinues := ha.continues
    intro y hy
    rcases (mem_inPlay_turned ht hx hcontinues.ticket).1 hy with rfl | ⟨hy, -⟩
    · rw [hcontinues.id, hcontinues.ticket, hcontinues.request]
      exact h.known x hx
    · exact h.known y hy
  issued := h.issued
  ids := h.ids
  tickets := h.tickets
  accounted := by
    refine h.accounted.extend (ha.continues.history.and ha.headOf) fun e earlier he => ?_
    rw [← h.address]
    exact he.1.accounted he.2 (h.known x hx) earlier

/-- The table accounts for whatever a connection does; at most it grows. -/
theorem Proceeds.keepsTable {via : Footing κ → Footing κ → Prop} (h : Proceeds via s s') (ht : s.Tidy)
    (he : s.KeepsTable base table) : ∃ new, s'.KeepsTable base (new ++ table) := by
  induction h generalizing table with
  | aside h => exact ⟨[], he.aside h⟩
  | trans h _ ih ih' =>
    obtain ⟨new, he'⟩ := ih ht he
    obtain ⟨new', he''⟩ := ih' ((h.changes ht).tidy ht) he'
    exact ⟨new' ++ new, List.append_assoc _ _ _ ▸ he''⟩
  | lose h =>
    exact ⟨[], (he.aside h).later rfl (fun _ hx => hx) rfl (Nat.le_refl _) (.cons trivial .refl)⟩
  | queue request hopen => exact ⟨[_], he.queued request hopen⟩
  | turn hx ha => exact ⟨[], he.turned ht hx ha⟩
  | last hx ha _ _ _ h _ ih =>
    have hcontinues := ha.continues
    obtain ⟨new, he'⟩ := ih (ht.turned hx hcontinues.id hcontinues.ticket) (he.turned ht hx ha)
    exact ⟨new, he'.aside h⟩
  | settle hopen hdone hr haborts =>
    refine ⟨[], he.given fun hreset => ?_⟩
    obtain ⟨x, hx, rfl, haborted⟩ := haborts hreset
    exact ⟨x.id, x.request, he.known x hx, haborted⟩
  | conclude hx hs hopen hh hl hr =>
    have hremoved := he.removed hx (hl.imp fun _ => Entry.IsStreamLine.silent)
    exact ⟨[], hremoved.given fun hreset => nomatch hr.symm.trans hreset⟩
  | @abort s x registry outcome history hx hopen hl hr haborts =>
    have hplay : x ∈ s.inPlay := by
      obtain ⟨e, hin, -, heq⟩ := Registry.mem_of_remove hx
      exact heq ▸ mem_inPlay_of_entry hin
    have hremoved := he.removed hx (hl.imp fun _ hline => hline.clerical.silent)
    exact ⟨[], hremoved.given fun _ => ⟨x.id, x.request, he.known x hplay, haborts⟩⟩

variable [Transport τ] {s₀ : Session κ τ ω σ} {r : Reaction κ τ ω σ}

theorem FreeRun.tidy (h₀ : Created s₀) (h : FreeRun s₀ s) : s.Tidy := (Activity.changes h h₀.tidy).tidy h₀.tidy

theorem FreeRun.keepsTable (h₀ : Created s₀) (h : FreeRun s₀ s) : ∃ table, s.KeepsTable s₀.metadata.baseUrl table := by
  obtain ⟨table, he⟩ := (FreeRun.proceeds h h₀.tidy).keepsTable h₀.tidy h₀.keepsTable
  exact ⟨_, he⟩

theorem FreeRun.keepsTable_of_taken (h₀ : Created s₀) (hu : FreeRun s₀ u) (hr : ∀ o news w, FreeRun w (r.run o news w))
    (hopen : u.refusal = none) (hrest : FreeRun (u.submit r request).2 s) :
    ∃ table, (u.nextId, u.completions.length, request) ∈ table ∧ s.KeepsTable s₀.metadata.baseUrl table := by
  have htidy := FreeRun.tidy h₀ hu
  have hqueued := htidy.queued request hopen
  obtain ⟨before, hbefore⟩ := FreeRun.keepsTable h₀ hu
  have hpoised : u.Poised (fun _ _ => True) r := ⟨htidy, Or.inr fun o news w hw => (hr o news w).proceeds hw⟩
  have htaken := proceeds_submit_of_taken Footing.works_true hpoised request hopen
  have hlater := htaken.trans (hrest.proceeds ((htaken.changes hqueued).tidy hqueued))
  obtain ⟨new, hafter⟩ := hlater.keepsTable hqueued (hbefore.queued request hopen)
  exact ⟨_, List.mem_append_right _ List.mem_cons_self, hafter⟩

/-! The heads of requests. -/

/-- An exchange that starts sends the head of its request if the request is for the origin of the connection, and else
nothing. Every head that a run sends names the connection's own address, and the one under the id that a request was
taken with is the head of that request. -/
theorem run_heads (h₀ : Created s₀) (h : FreeRun s₀ s) :
    (∀ (m : Metadata) (t : Turn κ), t.stream.state = .pending → t.Starts m) ∧
    (∀ id fields last ret, .call (.headers id fields last ret) ∈ s.history →
      ∃ request : Request, request.Head s₀.metadata.baseUrl fields last) ∧
    ∀ (u : Session κ τ ω σ) (r : Reaction κ τ ω σ) (request : Request), FreeRun s₀ u →
      (∀ o news w, FreeRun w (r.run o news w)) → u.refusal = none → FreeRun (u.submit r request).2 s →
      ∀ fields last ret, .call (.headers u.nextId fields last ret) ∈ s.history →
        request.Head s₀.metadata.baseUrl fields last := by
  refine ⟨fun m t hs => Turn.starts m hs, fun id fields last ret hsent => ?_,
    fun u r request hu hr hopen hrest fields last ret hsent => ?_⟩
  · obtain ⟨table, hkeeps⟩ := FreeRun.keepsTable h₀ h
    obtain ⟨later, earlier, hsplit⟩ := List.append_of_mem hsent
    obtain ⟨-, request, -, hhead⟩ := hkeeps.accounted.at hsplit
    exact ⟨request, hhead⟩
  · obtain ⟨table, hm, hkeeps⟩ := FreeRun.keepsTable_of_taken h₀ hu hr hopen hrest
    exact hkeeps.head hm hsent

/-- However the address of a request is spelled, its head names the connection's. A request for another host sends none.
-/
theorem run_heads_scripted :
    ∃ (s₀ u s : Session Scripted.Codec Scripted.Transport Unit Unit)
      (r : Reaction Scripted.Codec Scripted.Transport Unit Unit) (request stray : Request) (fields : Headers)
      (t : Turn Scripted.Codec), Created s₀ ∧ FreeRun s₀ u ∧ (∀ o news w, FreeRun w (r.run o news w)) ∧
        u.refusal = none ∧ FreeRun (u.submit r request).2 s ∧ request.url = ascii "HTTPS://user@EXAMPLE.com:443/a?b#c" ∧
        fields = [(ascii ":method", ascii "POST"), (ascii ":authority", ascii "example.com"),
          (ascii ":scheme", ascii "https"), (ascii ":path", ascii "/a?b"), (ascii "x-trace", ascii "On"),
          (ascii "content-length", ascii "2")] ∧
        .call (.headers u.nextId fields false 0) ∈ s.history ∧ request.Head s₀.metadata.baseUrl fields false ∧
        t.stream.request = stray ∧ ¬stray.Matches s₀.metadata.baseUrl ∧ t.stream.state = .pending ∧
        t.Starts s₀.metadata := by
  let request : Request := {
    method := ascii "POST"
    url := ascii "HTTPS://user@EXAMPLE.com:443/a?b#c"
    headers := [(ascii "X-Trace", ascii "On")]
    body := ascii "hi" }
  let stray : Request := { url := ascii "https://example.org/" }
  let r : Reaction Scripted.Codec Scripted.Transport Unit Unit := ⟨fun _ _ s => s⟩
  have hr : ∀ o news w, FreeRun w (r.run o news w) := fun _ _ w => .refl w
  let s₀ : Session Scripted.Codec Scripted.Transport Unit Unit :=
    fresh { arrival := .events [{ body := .settingsAcknowledged }] }
  let u := s₀.performAll r [.established (some {}), .bytesReceived []]
  let s := (u.submit r request).2
  let t : Turn Scripted.Codec := {
    stream := { Stream.new 3 1 stray s₀.metadata with state := .pending }
    codec := {}
    history := [] }
  have hu : FreeRun s₀ u := Activity.performAll hr (fun _ _ => trivial) s₀
  have hopen : u.refusal = none := by decide +kernel
  have hsubmit : FreeRun u s := (Activity.refl u).meet r hr (.operation (.submit request)) trivial
  obtain ⟨hstarts, -, hheads⟩ := run_heads (created_fresh _) (hu.trans hsubmit)
  have hsent : .call (.headers u.nextId [(ascii ":method", ascii "POST"), (ascii ":authority", ascii "example.com"),
      (ascii ":scheme", ascii "https"), (ascii ":path", ascii "/a?b"), (ascii "x-trace", ascii "On"),
      (ascii "content-length", ascii "2")] false 0) ∈ s.history := by decide +kernel
  have hstray : ¬stray.Matches s₀.metadata.baseUrl := by
    rintro ⟨v, hparse, -, hhost, -⟩
    have hother : Url.parse stray.url = .ok ⟨ascii "https", ascii "example.org", 443, ascii "/"⟩ := by decide +kernel
    obtain rfl := Except.ok.inj (hother.symm.trans hparse)
    exact absurd hhost (by decide +kernel)
  exact ⟨s₀, u, s, r, request, stray, _, t, created_fresh _, hu, hr, hopen, .refl _, rfl, rfl, hsent,
    hheads u r request hu hr hopen (.refl _) _ _ _ hsent, rfl, hstray, rfl, hstarts s₀.metadata t rfl⟩

/-- In the head of a request that was taken the fields of the protocol come first. But behind them stand those that the
caller gave under such a name, so the fields of the protocol are as they should be exactly if there are none. -/
theorem run_pseudo_fields (h₀ : Created s₀) (hu : FreeRun s₀ u) (hr : ∀ o news w, FreeRun w (r.run o news w))
    (hopen : u.refusal = none) (hrest : FreeRun (u.submit r request).2 s) {fields : Headers} {last : Bool} {ret : Int32}
    (hsent : .call (.headers u.nextId fields last ret) ∈ s.history) :
    (∃ lead rest : Headers, fields = lead ++ rest ∧ lead.map Prod.fst = Header.leading ∧
      (rest.map Prod.fst).filter Header.isPseudo = (request.headers.map fun own => lower own.1).filter Header.isPseudo) ∧
      (Header.Led fields ↔ ∀ own ∈ request.headers, Header.isPseudo own.1 = false) := by
  obtain ⟨table, hm, hkeeps⟩ := FreeRun.keepsTable_of_taken h₀ hu hr hopen hrest
  have hhead := hkeeps.head hm hsent
  exact ⟨hhead.split, hhead.led_iff⟩

theorem run_pseudo_fields_scripted :
    ∃ (s₀ u s : Session Scripted.Codec Scripted.Transport Unit Unit)
      (r : Reaction Scripted.Codec Scripted.Transport Unit Unit) (request : Request) (fields : Headers), Created s₀ ∧
        FreeRun s₀ u ∧ (∀ o news w, FreeRun w (r.run o news w)) ∧ u.refusal = none ∧ FreeRun (u.submit r request).2 s ∧
        .call (.headers u.nextId fields true 0) ∈ s.history ∧ request.headers = [(ascii "Accept", ascii "text/html")] ∧
        Header.Led fields := by
  let request : Request := { url := ascii "https://example.com/", headers := [(ascii "Accept", ascii "text/html")] }
  let r : Reaction Scripted.Codec Scripted.Transport Unit Unit := ⟨fun _ _ s => s⟩
  have hr : ∀ o news w, FreeRun w (r.run o news w) := fun _ _ w => .refl w
  let s₀ : Session Scripted.Codec Scripted.Transport Unit Unit :=
    fresh { arrival := .events [{ body := .settingsAcknowledged }] }
  let u := s₀.performAll r [.established (some {}), .bytesReceived []]
  let s := (u.submit r request).2
  have hu : FreeRun s₀ u := Activity.performAll hr (fun _ _ => trivial) s₀
  have hopen : u.refusal = none := by decide +kernel
  have hsent : .call (.headers u.nextId [(ascii ":method", ascii "GET"), (ascii ":authority", ascii "example.com"),
      (ascii ":scheme", ascii "https"), (ascii ":path", ascii "/"), (ascii "accept", ascii "text/html")] true 0)
        ∈ s.history := by decide +kernel
  obtain ⟨-, hled⟩ := run_pseudo_fields (created_fresh _) hu hr hopen (.refl s) hsent
  exact ⟨s₀, u, s, r, request, _, created_fresh _, hu, hr, hopen, .refl s, hsent, rfl, hled.2 (by decide)⟩

/-- A request for the right host adds a second one behind the check. -/
theorem authority_smuggled :
    ∃ (s₀ s : Session Scripted.Codec Scripted.Transport Unit Unit) (request : Request) (fields : Headers),
      Created s₀ ∧ FreeRun s₀ s ∧ request.Matches s₀.metadata.baseUrl ∧
        .call (.headers 1 fields true 0) ∈ s.history ∧ (ascii ":authority", ascii "example.com") ∈ fields ∧
        (ascii ":authority", ascii "evil.example") ∈ fields ∧ ¬Header.Led fields := by
  let request : Request := {
    url := ascii "https://example.com/"
    headers := [(ascii ":authority", ascii "evil.example")] }
  let r : Reaction Scripted.Codec Scripted.Transport Unit Unit := ⟨fun _ _ s => s⟩
  let s₀ : Session Scripted.Codec Scripted.Transport Unit Unit :=
    fresh { arrival := .events [{ body := .settingsAcknowledged }] }
  let s := s₀.performAll r [.established (some {}), .bytesReceived [], .submit request]
  let fields : Headers := [(ascii ":method", ascii "GET"), (ascii ":authority", ascii "example.com"),
    (ascii ":scheme", ascii "https"), (ascii ":path", ascii "/"), (ascii ":authority", ascii "evil.example")]
  have hrun : FreeRun s₀ s := Activity.performAll (fun _ _ w => .refl w) (fun _ _ => trivial) s₀
  have hparse : Url.parse request.url = .ok ⟨ascii "https", ascii "example.com", 443, ascii "/"⟩ := by decide +kernel
  have hsent : .call (.headers 1 fields true 0) ∈ s.history := by decide +kernel
  refine ⟨s₀, s, request, fields, created_fresh _, hrun, ⟨_, hparse, rfl, rfl, rfl⟩, hsent, by decide, by decide, ?_⟩
  intro hled
  exact absurd hled.names.length_eq (by decide)

/-! Exchanges that were aborted. -/

/-- Why an exchange was aborted is always on record, and the caller is told, unless a piece of the request's body was
refused. Then there are no causes. -/
theorem run_resets (h₀ : Created s₀) (h : FreeRun s₀ s) :
    (∀ ticket outcome, s.peek ticket = some outcome → outcome.reason = .reset →
      ∃ id, s.history.Explains id ticket outcome ∧
        (outcome.causes = [] → ∃ bytes last ret, ret ≠ 0 ∧ .call (.data id bytes last ret) ∈ s.history)) ∧
    (∀ (u : Session κ τ ω σ) (r : Reaction κ τ ω σ) (request : Request), FreeRun s₀ u →
      (∀ o news w, FreeRun w (r.run o news w)) → u.refusal = none → FreeRun (u.submit r request).2 s →
      ∀ outcome, s.peek u.completions.length = some outcome → outcome.reason = .reset →
        s.history.Explains u.nextId u.completions.length outcome) ∧
    ∀ (m : Metadata) (t : Turn κ), t.stream.state = .opened → t.stream.unsent ≠ [] → t.room ≠ 0 → t.offer.1 ≠ 0 →
      (t.sendBody m).ending = some ⟨t.stream.outcome m .reset [], true⟩ := by
  obtain ⟨ledger, hd⟩ := FreeRun.disciplined h₀ h
  have hsettled : ∀ ticket outcome, s.peek ticket = some outcome →
      ∃ later earlier, s.history = later ++ .settled ticket outcome :: earlier := fun ticket outcome hpeek =>
    List.append_of_mem ((hd.given ticket outcome).2 (peek_eq_some_iff.1 hpeek))
  refine ⟨fun ticket outcome hpeek hr => ?_, fun u r request hu hreact hopen hrest outcome hpeek hr => ?_,
    fun m t hs hu hroom href => Turn.ending_of_refused m hs hu hroom href⟩
  · obtain ⟨table, hkeeps⟩ := FreeRun.keepsTable h₀ h
    obtain ⟨later, earlier, hsplit⟩ := hsettled ticket outcome hpeek
    obtain ⟨id, -, -, haborts⟩ := hkeeps.accounted.at hsplit hr
    have hexplains : s.history.Explains id ticket outcome := ⟨later, earlier, hsplit, haborts⟩
    exact ⟨id, hexplains, hexplains.refused⟩
  · obtain ⟨table, hm, hkeeps⟩ := FreeRun.keepsTable_of_taken h₀ hu hreact hopen hrest
    obtain ⟨later, earlier, hsplit⟩ := hsettled _ outcome hpeek
    obtain ⟨id, other, hm', haborts⟩ := hkeeps.accounted.at hsplit hr
    obtain ⟨rfl, -⟩ := Prod.mk.inj (hkeeps.eq_of_ticket hm' hm rfl)
    exact ⟨later, earlier, hsplit, haborts⟩

/-- The peer resets one exchange, the codec refuses the head of the next and the body of a third. -/
theorem run_resets_scripted :
    ∃ (s₀ u s : Session Scripted.Codec Scripted.Transport Unit Unit)
      (r : Reaction Scripted.Codec Scripted.Transport Unit Unit) (request : Request) (a b c : Outcome), Created s₀ ∧
        FreeRun s₀ u ∧ (∀ o news w, FreeRun w (r.run o news w)) ∧ u.refusal = none ∧ FreeRun (u.submit r request).2 s ∧
        s.peek 0 = some a ∧ a.reason = .reset ∧ a.causes = [.plain .streamReset "Stream reset with CANCEL"] ∧
        (∃ id, s.history.Explains id 0 a) ∧ s.peek 1 = some b ∧ b.reason = .reset ∧
        b.causes = [.plain .protocolStreamError "Failed to send request headers"] ∧ (∃ id, s.history.Explains id 1 b) ∧
        s.peek 2 = some c ∧ c.reason = .reset ∧ c.causes = [] ∧ s.history.Explains 5 2 c := by
  let plain : Request := { url := ascii "https://example.com/" }
  let request : Request := { url := ascii "https://example.com/", body := ascii "hello" }
  let r : Reaction Scripted.Codec Scripted.Transport Unit Unit := ⟨fun _ _ s => s⟩
  have hr : ∀ o news w, FreeRun w (r.run o news w) := fun _ _ w => .refl w
  let s₀ : Session Scripted.Codec Scripted.Transport Unit Unit := fresh {
    headers := { queue := [0, -1, 0] }
    data := { constant := -1 }
    arrival := .events [{ body := .settingsAcknowledged }] }
  let u := s₀.performAll r [.established (some {}), .bytesReceived [], .submit plain, .submit plain]
  let taken := (u.submit r request).2
  let answered : Drift Scripted.Codec Scripted.Transport Unit Unit :=
    .scripted { arrival := .events [⟨1, .reset .cancel⟩] }
  let s := (taken.drift answered).perform r (.bytesReceived [])
  have hu : FreeRun s₀ u := Activity.performAll hr (fun _ _ => trivial) s₀
  have htaken : FreeRun u taken := (Activity.refl u).meet r hr (.operation (.submit request)) trivial
  have hrest : FreeRun taken s :=
    ((Activity.refl taken).drift answered).meet r hr (.operation (.bytesReceived [])) trivial
  have hopen : u.refusal = none := by decide +kernel
  have hplace : u.completions.length = 2 ∧ u.nextId = 5 := by decide +kernel
  obtain ⟨hexplained, hasked, -⟩ := run_resets (created_fresh _) (hu.trans (htaken.trans hrest))
  have houtcomes : (s.peek 0).isSome ∧ (s.peek 1).isSome ∧ (s.peek 2).isSome := by decide +kernel
  obtain ⟨⟨a, ha⟩, ⟨b, hb⟩, ⟨c, hc⟩⟩ := houtcomes.imp Option.isSome_iff_exists.1
    (And.imp Option.isSome_iff_exists.1 Option.isSome_iff_exists.1)
  have htold : (s.peek 0).map (fun o => (o.reason, o.causes)) =
        some (.reset, [.plain .streamReset "Stream reset with CANCEL"]) ∧
      (s.peek 1).map (fun o => (o.reason, o.causes)) =
        some (.reset, [.plain .protocolStreamError "Failed to send request headers"]) ∧
      (s.peek 2).map (fun o => (o.reason, o.causes)) = some (.reset, []) := by decide +kernel
  rw [ha, hb, hc] at htold
  simp only [Option.map_some, Option.some.injEq, Prod.mk.injEq] at htold
  obtain ⟨⟨har, hac⟩, ⟨hbr, hbc⟩, hcr, hcc⟩ := htold
  obtain ⟨id, hida, -⟩ := hexplained 0 a ha har
  obtain ⟨id', hidb, -⟩ := hexplained 1 b hb hbr
  have hlast := hasked u r request hu hr hopen hrest c
  rw [hplace.1, hplace.2] at hlast
  exact ⟨s₀, u, s, r, request, a, b, c, created_fresh _, hu, hr, hopen, hrest, ha, har, hac, ⟨id, hida⟩, hb, hbr, hbc,
    ⟨id', hidb⟩, hc, hcr, hcc, hlast hc hcr⟩

/-- The codec refuses the body of a request, and the caller is told a reset without any cause. -/
theorem reset_unexplained :
    ∃ (s₀ s : Session Scripted.Codec Scripted.Transport Unit Unit) (outcome : Outcome), Created s₀ ∧ FreeRun s₀ s ∧
      s.peek 0 = some outcome ∧ outcome.reason = .reset ∧ outcome.causes = [] := by
  let request : Request := { url := ascii "https://example.com/", body := ascii "hello" }
  let r : Reaction Scripted.Codec Scripted.Transport Unit Unit := ⟨fun _ _ s => s⟩
  let s₀ : Session Scripted.Codec Scripted.Transport Unit Unit :=
    fresh { data := { constant := -1 }, arrival := .events [{ body := .settingsAcknowledged }] }
  let s := s₀.performAll r [.established (some {}), .bytesReceived [], .submit request]
  have hrun : FreeRun s₀ s := Activity.performAll (fun _ _ w => .refl w) (fun _ _ => trivial) s₀
  have htold : (s.peek 0).map (fun o => (o.reason, o.causes)) = some (.reset, []) := by decide +kernel
  obtain ⟨outcome, hpeek, heq⟩ := Option.map_eq_some_iff.1 htold
  exact ⟨s₀, s, outcome, created_fresh _, hrun, hpeek, congrArg Prod.fst heq, congrArg Prod.snd heq⟩

end Session

end Multiplex

import Multiplex.Proofs.Intake
import Multiplex.Proofs.Roundtrip

/-! The head of a request. An exchange that starts hands its codec one head, if the address of its request is of the
connection's origin, and nothing at all otherwise. The head names the peer as the connection does, however the request
spells it. Its other fields are the caller's, and the codec gets them under whatever names the caller gives. -/
namespace Multiplex

open Bytes Wire

theorem Url.regular_of_parse {t : Bytes} {u : Url} (h : parse t = .ok u) : u.Regular := by
  have hread : read t = .ok u := by
    cases hr : read t with
    | ok v => simpa [parse, hr, Except.mapError] using h
    | error i => simp [parse, hr, Except.mapError] at h
  obtain ⟨p, hspelling, rfl⟩ := read_eq_ok_iff.1 hread
  exact hspelling.regular

theorem Stream.requestFields_eq (s : Stream) (u : Url) : s.requestFields u =
    [(ascii ":method", s.request.method), (ascii ":authority", u.authority), (ascii ":scheme", u.scheme),
        (ascii ":path", u.path)] ++ s.request.headers.map (fun h => (lower h.1, h.2)) ++
      if s.request.body ≠ [] ∧ ∀ h ∈ s.request.headers, lower h.1 ≠ ascii "content-length" then
        [(ascii "content-length", Decimal.write s.request.body.length)]
      else [] := by
  have hlength : (!s.request.body.isEmpty && !(s.request.headers.map fun h => (lower h.1, h.2)).any
      (·.1 == ascii "content-length")) = true ↔
        s.request.body ≠ [] ∧ ∀ h ∈ s.request.headers, lower h.1 ≠ ascii "content-length" := by
    simp
  unfold requestFields
  simp only [hlength]

namespace Request

def Matches (base : Url) (r : Request) : Prop :=
  ∃ u, Url.parse r.url = .ok u ∧ u.scheme = base.scheme ∧ u.host = base.host ∧ u.port = base.port

/-- The fields that open a request on a connection to some address, and whether they are all of it. -/
structure Head (base : Url) (r : Request) (fields : Headers) (last : Bool) : Prop where
  fields : ∃ path, Url.parse r.url = .ok { base with path } ∧ path.head? = some 47 ∧ 35 ∉ path ∧
    fields = [(ascii ":method", r.method), (ascii ":authority", base.authority), (ascii ":scheme", base.scheme),
        (ascii ":path", path)] ++ r.headers.map (fun h => (lower h.1, h.2)) ++
      if r.body ≠ [] ∧ ∀ h ∈ r.headers, lower h.1 ≠ ascii "content-length" then
        [(ascii "content-length", Decimal.write r.body.length)]
      else []
  last : last = true ↔ r.body = []

variable {base : Url} {r : Request} {fields : Headers} {last : Bool}

theorem head_requestFields {s : Stream} {u : Url} (hparse : Url.parse s.request.url = .ok u)
    (hsame : u.sameOrigin base = true) : s.request.Head base (s.requestFields u) s.request.body.isEmpty := by
  obtain ⟨scheme, host, port, path⟩ := u
  obtain ⟨rfl, rfl, rfl⟩ := Url.sameOrigin_iff.1 hsame
  obtain ⟨rest, hrooted, hfragment⟩ := (Url.regular_of_parse hparse).rooted
  obtain rfl : path = 47 :: rest := hrooted
  exact ⟨⟨47 :: rest, hparse, rfl, by simpa using hfragment, s.requestFields_eq _⟩, List.isEmpty_iff⟩

end Request

/-! What a turn puts on record. -/

def Entry.HeadOf (base : Url) (r : Request) (e : Entry) : Prop :=
  ∀ id fields last ret, e = .call (.headers id fields last ret) → r.Head base fields last

def Entry.Headless (e : Entry) : Prop := ∀ id fields last ret, e ≠ .call (.headers id fields last ret)

theorem Entry.Headless.headOf {e : Entry} (h : e.Headless) (base : Url) (r : Request) : e.HeadOf base r :=
  fun id fields last ret he => absurd he (h id fields last ret)

theorem Entry.IsStreamLine.headless {e : Entry} (h : e.IsStreamLine) : e.Headless := by
  obtain ⟨l, rfl, -⟩ := h
  exact fun _ _ _ _ => Entry.noConfusion

theorem History.calls_append (new old : History) : calls (new ++ old) = old.calls ++ calls new :=
  History.select_append Entry.calling new old

theorem History.Extends.calls {p : Entry → Prop} {h h' : History} (hh : h.Extends p h') :
    ∃ more, h'.calls = h.calls ++ more ∧ ∀ c ∈ more, p (.call c) := by
  obtain ⟨new, rfl, hnew⟩ := hh
  refine ⟨_, calls_append new h, fun c hc => ?_⟩
  obtain ⟨e, he, hcalling⟩ := List.mem_filterMap.1 hc
  cases e with
  | call d =>
    obtain rfl : d = c := Option.some.inj hcalling
    exact hnew _ (List.mem_reverse.1 he)
  | _ => cases hcalling

namespace Turn

variable {κ : Type} [Codec κ] {m : Metadata} {d : Direction} {t t' : Turn κ}

theorem Step.headless (h : Step m d t t') : t.history.Extends Entry.Headless t'.history := by
  cases h with
  | piece =>
    rw [history_offer]
    exact .cons (fun _ _ _ _ => nofun) .refl
  | absorb field => exact (extends_absorb t field).imp fun _ => Entry.IsStreamLine.headless
  | close causes => exact (extends_close t _ causes true).imp fun _ => Entry.IsStreamLine.headless
  | note | acknowledge | reset => exact .cons (fun _ _ _ _ => nofun) .refl
  | complete | headReceived | expect | warned | append => exact .refl

theorem Steps.headless (h : Steps m d t t') : t.history.Extends Entry.Headless t'.history := by
  induction h with
  | refl => exact .refl
  | tail _ hstep ih => exact ih.trans hstep.headless

theorem initiate_of_same {u : Url} (hs : t.stream.state = .pending) (hparse : Url.parse t.stream.request.url = .ok u)
    (hsame : u.sameOrigin m.baseUrl = true) : t.initiate m = t.start m u := by
  have hfilter : (Url.parse t.stream.request.url).toOption.filter (·.sameOrigin m.baseUrl) = some u := by
    rw [hparse]
    exact Option.filter_eq_some_iff.2 ⟨rfl, hsame⟩
  unfold initiate
  rw [if_neg fun h => h hs, hfilter]

theorem initiate_of_stray (hs : t.stream.state = .pending) (h : ¬t.stream.request.Matches m.baseUrl) :
    ∃ message, t.initiate m = (t.note .warn message).close m .invalidHostname [] true := by
  have hfilter : (Url.parse t.stream.request.url).toOption.filter (·.sameOrigin m.baseUrl) = none := by
    refine Option.filter_eq_none_iff.2 fun u hu hsame => h ⟨u, ?_, Url.sameOrigin_iff.1 hsame⟩
    cases hparse : Url.parse t.stream.request.url with
    | ok v =>
      rw [hparse] at hu
      exact congrArg Except.ok (Option.some.inj hu)
    | error e =>
      rw [hparse] at hu
      cases hu
  unfold initiate
  rw [if_neg fun h => h hs, hfilter]
  exact ⟨_, rfl⟩

theorem headless_start (url : Url) (t : Turn κ) :
    (t.offerHead url).history.Extends Entry.Headless (t.start m url).history := by
  by_cases hret : (t.headAnswer url).1 = 0
  · exact (steps_start hret).headless
  · obtain ⟨message, hrefused⟩ := start_of_refused (m := m) hret
    have hnoted : (t.offerHead url).history.Extends Entry.Headless ((t.offerHead url).note .error message).history :=
      .cons (fun _ _ _ _ => nofun) .refl
    rw [hrefused]
    exact hnoted.trans ((extends_close _ _ _ _).imp fun _ => Entry.IsStreamLine.headless)

structure Starts (m : Metadata) (t : Turn κ) : Prop where
  sends : t.stream.request.Matches m.baseUrl → ∃ fields last more, t.stream.request.Head m.baseUrl fields last ∧
    (t.initiate m).history.calls = t.history.calls ++
      .headers t.stream.id fields last (Codec.sendHeaders t.codec t.stream.id fields last).1 :: more ∧
    ∀ c ∈ more, ∀ id fields last ret, c ≠ .headers id fields last ret
  strays : ¬t.stream.request.Matches m.baseUrl → (t.initiate m).history.calls = t.history.calls ∧
    (t.initiate m).codec = t.codec ∧
    (t.initiate m).stream = { t.stream with state := .closed, closeReason := .invalidHostname } ∧
    (t.initiate m).ending = some ⟨t.stream.outcome m .invalidHostname [], true⟩

theorem starts (m : Metadata) (hs : t.stream.state = .pending) : t.Starts m where
  sends := by
    rintro ⟨u, hparse, horigin⟩
    have hsame : u.sameOrigin m.baseUrl = true := Url.sameOrigin_iff.2 horigin
    obtain ⟨more, hcalls, hmore⟩ := (headless_start (m := m) u t).calls
    refine ⟨_, _, more, Request.head_requestFields hparse hsame, ?_, fun c hc id fields last ret hcall => ?_⟩
    · rw [initiate_of_same hs hparse hsame, hcalls]
      unfold offerHead record
      rw [History.calls_cons_call, List.append_assoc]
      rfl
    · exact hmore c hc id fields last ret (congrArg Entry.call hcall)
  strays := by
    intro hstray
    have hopen : ∀ message, (t.note .warn message).stream.state ≠ .closed := fun message hclosed =>
      StreamState.noConfusion (hs.symm.trans hclosed)
    obtain ⟨message, h⟩ := initiate_of_stray hs hstray
    rw [h, codec_close, stream_close (hopen message), ending_close (hopen message)]
    refine ⟨?_, rfl, rfl, rfl⟩
    have hlines := extends_close (m := m) (t.note .warn message) .invalidHostname [] true
    exact (hlines.calls_eq fun e he => he.unseen fun _ => rfl).trans (History.calls_note _ _ _ _)

theorem headOf_initiate (m : Metadata) (t : Turn κ) :
    t.history.Extends (Entry.HeadOf m.baseUrl t.stream.request) (t.initiate m).history := by
  by_cases hs : t.stream.state = .pending
  · by_cases hmatches : t.stream.request.Matches m.baseUrl
    · obtain ⟨u, hparse, horigin⟩ := hmatches
      have hsame : u.sameOrigin m.baseUrl = true := Url.sameOrigin_iff.2 horigin
      have hhead : t.history.Extends (Entry.HeadOf m.baseUrl t.stream.request) (t.offerHead u).history := by
        refine .cons (fun id fields last ret heq => ?_) .refl
        cases heq
        exact Request.head_requestFields hparse hsame
      rw [initiate_of_same hs hparse hsame]
      exact hhead.trans ((headless_start u t).imp fun _ he => he.headOf _ _)
    · obtain ⟨message, h⟩ := initiate_of_stray hs hmatches
      have hnoted : t.history.Extends Entry.Headless (t.note .warn message).history := .cons (fun _ _ _ _ => nofun) .refl
      rw [h]
      have hclosed := (extends_close (m := m) (t.note .warn message) .invalidHostname [] true).imp fun _ =>
        Entry.IsStreamLine.headless
      exact (hnoted.trans hclosed).imp fun _ he => he.headOf _ _
  · rw [show t.initiate m = t.warnStray _ from if_pos hs]
    exact .cons (fun _ _ _ _ => nofun) .refl

end Turn

/-! The fields of the protocol in a head. -/

namespace Header

def leading : List Bytes := [ascii ":method", ascii ":authority", ascii ":scheme", ascii ":path"]

theorem isPseudo_lower (name : Bytes) : isPseudo (lower name) = isPseudo name := by
  have hcolon : (58 : UInt8) ∈ Url.marks := by decide
  rw [Bool.eq_iff_iff]
  simp [isPseudo, Url.head?_lower_iff hcolon]

/-- The fields of the protocol are those of a request, each once, and in front of all others. -/
structure Led (fields : Headers) : Prop where
  names : ((fields.map Prod.fst).filter isPseudo).Perm leading
  front : fields.Pairwise fun a b => isPseudo b.1 = true → isPseudo a.1 = true

end Header

namespace Request.Head

variable {base : Url} {r : Request} {fields : Headers} {last : Bool}

theorem split (h : r.Head base fields last) : ∃ lead rest : Headers, fields = lead ++ rest ∧
    lead.map Prod.fst = Header.leading ∧
    (rest.map Prod.fst).filter Header.isPseudo = (r.headers.map fun h => lower h.1).filter Header.isPseudo := by
  obtain ⟨path, -, -, -, hfields⟩ := h.fields
  refine ⟨_, _, hfields.trans (List.append_assoc _ _ _), rfl, ?_⟩
  have hlength : Header.isPseudo (ascii "content-length") = false := by decide
  rw [List.map_append, List.filter_append, List.map_map]
  split
  · rw [List.map_singleton, List.filter_singleton, hlength]
    exact List.append_nil _
  · exact List.append_nil _

theorem pseudo (h : r.Head base fields last) : (fields.map Prod.fst).filter Header.isPseudo =
    Header.leading ++ (r.headers.map fun h => lower h.1).filter Header.isPseudo := by
  obtain ⟨lead, rest, rfl, hlead, hrest⟩ := h.split
  have hleading : Header.leading.filter Header.isPseudo = Header.leading := by decide
  rw [List.map_append, List.filter_append, hlead, hrest, hleading]

/-- The fields of the protocol are as they should be exactly if the caller gives none. -/
theorem led_iff (h : r.Head base fields last) :
    Header.Led fields ↔ ∀ own ∈ r.headers, Header.isPseudo own.1 = false := by
  have hown : (r.headers.map fun own => lower own.1).filter Header.isPseudo = [] ↔
      ∀ own ∈ r.headers, Header.isPseudo own.1 = false := by
    rw [List.filter_eq_nil_iff, List.forall_mem_map]
    simp only [Header.isPseudo_lower, Bool.not_eq_true]
  rw [← hown]
  refine ⟨fun hled => ?_, fun hnone => ⟨?_, ?_⟩⟩
  · have hlength := hled.names.length_eq
    rw [h.pseudo, List.length_append] at hlength
    exact List.length_eq_zero_iff.1 (Nat.add_eq_left.1 hlength)
  · rw [h.pseudo, hnone, List.append_nil]
  · obtain ⟨lead, rest, rfl, hlead, hrest⟩ := h.split
    rw [hnone, List.filter_eq_nil_iff] at hrest
    have hfront : ∀ a ∈ lead, Header.isPseudo a.1 = true := fun a ha => by
      have hname : a.1 ∈ Header.leading := hlead ▸ List.mem_map_of_mem ha
      revert hname
      exact (by decide : ∀ name ∈ Header.leading, Header.isPseudo name = true) a.1
    have hback : ∀ b ∈ rest, ¬Header.isPseudo b.1 = true := fun b hb => hrest b.1 (List.mem_map_of_mem hb)
    refine List.pairwise_append.2 ⟨?_, ?_, fun a ha _ _ _ => hfront a ha⟩
    · exact List.pairwise_of_forall_mem_list fun a ha _ _ _ => hfront a ha
    · exact List.pairwise_of_forall_mem_list fun _ _ b hb hpseudo => absurd hpseudo (hback b hb)

end Request.Head

end Multiplex

import Multiplex.Proofs.Abort
import Multiplex.Proofs.IoSteps

/-! What a connection does to its exchanges, on any loop, one proceeding after the other. An exchange that its turn has
ended stays on the register until all observers have been told, and on a stopped loop they may ask anything meanwhile.
So such a turn is one proceeding with all that follows from it, and after each proceeding the register holds no exchange
that has ended, unless it did before. How codec and loop may change in the course of it is given by a relation. -/
namespace Multiplex

open Bytes Wire

/-- A codec, and whether the loop has stopped. -/
abbrev Footing (κ : Type) : Type := κ × Bool

namespace Footing

variable {κ : Type} [Codec κ]

structure Sends (via : Footing κ → Footing κ → Prop) : Prop where
  refl : ∀ a, via a a
  trans : ∀ {a b c}, via a b → via b c → via a c
  headers : ∀ c stopped id fields last, via (c, stopped) ((Codec.sendHeaders c id fields last).2, stopped)
  data : ∀ c stopped id bytes last, via (c, stopped) ((Codec.sendData c id bytes last).2, stopped)
  reset : ∀ c stopped id code, via (c, stopped) ((Codec.reset c id code).2, stopped)

structure Works (via : Footing κ → Footing κ → Prop) : Prop extends Sends via where
  takeOutput : ∀ c stopped, via (c, stopped) ((Codec.takeOutput c).2, stopped)
  initiate : ∀ c stopped settings, via (c, stopped) (Codec.initiate c settings, stopped)
  close : ∀ c stopped code, via (c, stopped) (Codec.close c code, stopped)
  acknowledge : ∀ c stopped length id, via (c, stopped) (Codec.acknowledge c length id, stopped)

def Hears (via : Footing κ → Footing κ → Prop) : Prop :=
  ∀ c stopped bytes, via (c, stopped) ((Codec.receive c bytes).2, stopped)

theorem works_true : Works fun _ _ : Footing κ => True where
  refl := fun _ => trivial
  trans := fun _ _ => trivial
  headers := fun _ _ _ _ _ => trivial
  data := fun _ _ _ _ _ => trivial
  reset := fun _ _ _ _ => trivial
  takeOutput := fun _ _ => trivial
  initiate := fun _ _ _ => trivial
  close := fun _ _ _ => trivial
  acknowledge := fun _ _ _ _ => trivial

end Footing

namespace Turn

variable {κ : Type} [Codec κ] {m : Metadata} {d : Direction} {t t' : Turn κ} {via : Footing κ → Footing κ → Prop}

def Follows (via : Footing κ → Footing κ → Prop) (act : Metadata → Turn κ → Turn κ) : Prop :=
  ∀ m t stopped, via (t.codec, stopped) ((act m t).codec, stopped)

theorem via_offer (hv : Footing.Sends via) (t : Turn κ) (stopped : Bool) :
    via (t.codec, stopped) (t.offer.2.codec, stopped) := by
  unfold offer
  dsimp only
  split <;> exact hv.data _ _ _ _ _

theorem Step.via_sending (hv : Footing.Sends via) (stopped : Bool) (h : Step m .sending t t') :
    via (t.codec, stopped) (t'.codec, stopped) := by
  cases h with
  | piece => exact via_offer hv t stopped
  | reset => exact hv.reset _ _ _ _
  | close =>
    rw [codec_close]
    exact hv.refl _
  | note | complete => exact hv.refl _

theorem Step.via_receiving (hv : Footing.Works via) (stopped : Bool) (h : Step m .receiving t t') :
    via (t.codec, stopped) (t'.codec, stopped) := by
  cases h with
  | acknowledge => exact hv.acknowledge _ _ _ _
  | reset => exact hv.reset _ _ _ _
  | absorb field =>
    rw [codec_absorb]
    exact hv.refl _
  | close =>
    rw [codec_close]
    exact hv.refl _
  | note | headReceived | expect | warned | append => exact hv.refl _

theorem Steps.via_sending (hv : Footing.Sends via) (stopped : Bool) (h : Steps m .sending t t') :
    via (t.codec, stopped) (t'.codec, stopped) := by
  induction h with
  | refl => exact hv.refl _
  | tail _ hstep ih => exact hv.trans ih (hstep.via_sending hv stopped)

theorem follows_receiveWindowUpdate (hv : Footing.Sends via) : Follows via receiveWindowUpdate := fun _ t stopped =>
  (steps_receiveWindowUpdate t).via_sending hv stopped

theorem Steps.via_receiving (hv : Footing.Works via) (stopped : Bool) (h : Steps m .receiving t t') :
    via (t.codec, stopped) (t'.codec, stopped) := by
  induction h with
  | refl => exact hv.refl _
  | tail _ hstep ih => exact hv.trans ih (hstep.via_receiving hv stopped)

theorem follows_receiveHeaders (hv : Footing.Works via) (fields : Headers) :
    Follows via fun m : Metadata => receiveHeaders m fields := fun _ t stopped =>
  (steps_receiveHeaders t fields).via_receiving hv stopped

theorem follows_receiveData (hv : Footing.Works via) (bytes : Bytes) (length : Nat) :
    Follows via fun m : Metadata => receiveData m bytes length := fun _ t stopped =>
  (steps_receiveData t bytes length).via_receiving hv stopped

theorem follows_initiate (hv : Footing.Sends via) : Follows via initiate := by
  intro m t stopped
  by_cases hs : t.stream.state = .pending
  · rcases initiate_cases (m := m) hs with ⟨message, h⟩ | ⟨url, message, -, h⟩ | ⟨url, -, h⟩
    · rw [h, codec_close]
      exact hv.refl _
    · rw [h, codec_close]
      exact hv.headers _ _ _ _ _
    · exact hv.trans (hv.headers _ _ _ _ _) (h.via_sending hv stopped)
  · rw [show t.initiate m = t.warnStray _ from if_pos hs]
    exact hv.refl _

end Turn

namespace Session

variable {κ τ ω σ : Type} {s s' u : Session κ τ ω σ} {r : Reaction κ τ ω σ} {x : Stream} {ticket : Ticket}
  {via : Footing κ → Footing κ → Prop}

def footing (s : Session κ τ ω σ) : Footing κ := (s.codec, s.loop.stopped)

structure Aside (via : Footing κ → Footing κ → Prop) (s s' : Session κ τ ω σ) : Prop extends Clerical s s' where
  baseUrl : s'.metadata.baseUrl = s.metadata.baseUrl
  footing : via s.footing s'.footing

variable [Codec κ]

inductive Proceeds (via : Footing κ → Footing κ → Prop) : Session κ τ ω σ → Session κ τ ω σ → Prop
  | aside {s s' : Session κ τ ω σ} (h : Aside via s s') : Proceeds via s s'
  | trans {s u s' : Session κ τ ω σ} (h : Proceeds via s u) (h' : Proceeds via u s') : Proceeds via s s'
  | lose {s s' : Session κ τ ω σ} (h : Aside via s s') (hopen : s.closing = false) (hclosing : s'.closing = true) :
      Proceeds via s (s'.enter (.call .lose))
  | queue {s : Session κ τ ω σ} (request : Request) (h : s.refusal = none) : Proceeds via s (s.queued request)
  | turn {s : Session κ τ ω σ} {x : Stream} {act : Metadata → Turn κ → Turn κ} (hx : x ∈ s.inPlay) (ha : s.Prompt x act)
      (he : (act s.metadata (s.turnOf x)).ending = none)
      (hf : via s.footing (s.turned (act s.metadata (s.turnOf x))).footing) :
      Proceeds via s (s.turned (act s.metadata (s.turnOf x)))
  /-- A turn that ends the exchange, what observers do when they are told, and the exchange leaves. -/
  | last {s u s' : Session κ τ ω σ} {x : Stream} {act : Metadata → Turn κ → Turn κ} (hx : x ∈ s.inPlay)
      (ha : s.Prompt x act) (he : (act s.metadata (s.turnOf x)).ending ≠ none)
      (hf : via s.footing (s.turned (act s.metadata (s.turnOf x))).footing)
      (htold : Proceeds via (s.turned (act s.metadata (s.turnOf x))) u) (h : Aside via u s')
      (hgone : ∀ e ∈ s'.registry.entries, e.id ≠ x.id) : Proceeds via s s'
  | settle {s : Session κ τ ω σ} {ticket : Ticket} {outcome : Outcome} (hopen : s.values[ticket]? = some none)
      (hdone : ∀ x ∈ s.inPlay, x.ticket = ticket → x.state = .closed) (hr : outcome.reason ≠ .ended)
      (haborts : outcome.reason = .reset →
        ∃ x ∈ s.inPlay, x.ticket = ticket ∧ s.history.Aborts x.id outcome.causes) :
      Proceeds via s (s.given ticket outcome)
  /-- The response of an exchange is complete. -/
  | conclude {s : Session κ τ ω σ} {x : Stream} {registry : Registry Stream} {outcome : Outcome}
      {earlier history : History} (hx : s.registry.remove x.id = (some x, registry)) (hs : x.state ≠ .closed)
      (hopen : s.values[x.ticket]? = some none)
      (hh : s.history = .dispatched ⟨x.id, .ended⟩ :: earlier) (hl : s.history.Extends Entry.IsStreamLine history)
      (hr : outcome.reason = .ended) :
      Proceeds via s (({ s with registry, history } : Session κ τ ω σ).given x.ticket outcome)
  /-- The peer resets an exchange. -/
  | abort {s : Session κ τ ω σ} {x : Stream} {registry : Registry Stream} {outcome : Outcome} {history : History}
      (hx : s.registry.remove x.id = (some x, registry)) (hopen : s.values[x.ticket]? = some none)
      (hl : s.history.Extends Entry.IsLine history) (hr : outcome.reason = .reset)
      (haborts : history.Aborts x.id outcome.causes) :
      Proceeds via s (({ s with registry, history } : Session κ τ ω σ).given x.ticket outcome)

theorem Proceeds.footing (hv : Footing.Sends via) (h : Proceeds via s s') : via s.footing s'.footing := by
  induction h with
  | aside h => exact h.footing
  | trans _ _ ih ih' => exact hv.trans ih ih'
  | lose h => exact h.footing
  | turn _ _ _ hf => exact hf
  | last _ _ _ hf _ h _ ih => exact hv.trans (hv.trans hf ih) h.footing
  | queue | settle | conclude | abort => exact hv.refl _

theorem Proceeds.changes (h : Proceeds via s s') (ht : s.Tidy) : Changes s s' := by
  induction h with
  | aside h => exact .single (.clerical h.toClerical)
  | trans _ _ ih ih' =>
    have hfirst := ih ht
    exact hfirst.trans (ih' (hfirst.tidy ht))
  | lose h hopen hclosing => exact .single (.lose h.toClerical hopen hclosing)
  | queue request h => exact .single (.queue request h)
  | turn hx ha => exact .single (.turn hx ha)
  | last hx ha _ _ _ h _ ih =>
    have hturned : Changes _ _ := .single (.turn hx ha)
    exact (hturned.trans (ih (hturned.tidy ht))).tail (.clerical h.toClerical)
  | settle hopen hdone hr => exact .single (.settle hopen hdone hr)
  | conclude hx hs hopen hh hl => exact .single (.conclude hx hs hopen hh hl)
  | @abort s x registry outcome history hx hopen hl hr =>
    have hremoved : Changes s { s with registry } := .single (.clerical (clerical_remove hx))
    have hnoted : Changes { s with registry } { s with registry, history } :=
      .of_same rfl rfl rfl rfl (fun h => h) (hl.imp fun _ => Entry.IsLine.clerical)
    have hretired : ({ s with registry, history } : Session κ τ ω σ).Retired x.ticket := ht.retired_of_removed hx
    refine (hremoved.trans hnoted).tail (.settle hopen (fun y hy hticket => absurd hticket (hretired.2 y hy)) ?_)
    rw [hr]
    exact CloseReason.noConfusion

/-! Telling observers, and ending exchanges. -/

/-- The connection is tidy, and telling observers does not get in its way: they are told through the loop, which goes on
running, or what they do when they are told at once is made of proceedings of the same kind. -/
structure Poised (via : Footing κ → Footing κ → Prop) (r : Reaction κ τ ω σ) (s : Session κ τ ω σ) : Prop where
  tidy : s.Tidy
  tells : (s.loop.stopped = false ∧ ∀ a b : Footing κ, via a b → a.2 = false → b.2 = false) ∨
    ∀ o news (u : Session κ τ ω σ), u.Tidy → Proceeds via u (r.run o news u)

theorem Poised.later (h : s.Poised via r) (hv : Footing.Sends via) (hp : Proceeds via s s') : s'.Poised via r where
  tidy := (hp.changes h.tidy).tidy h.tidy
  tells := h.tells.imp_left fun hrunning => ⟨hrunning.2 _ _ (hp.footing hv) hrunning.1, hrunning.2⟩

theorem Proceeds.refl (hv : Footing.Sends via) (s : Session κ τ ω σ) : Proceeds via s s :=
  .aside ⟨.of_same rfl rfl rfl rfl (fun h => h) .refl, rfl, hv.refl _⟩

theorem Proceeds.next (hp : Proceeds via s u) (hv : Footing.Sends via) (h : s.Poised via r)
    (hnext : u.Poised via r → Proceeds via u s') : Proceeds via s s' := hp.trans (hnext (h.later hv hp))

theorem Proceeds.of_same (hregistry : s'.registry = s.registry) (hdetached : s'.detached = s.detached)
    (hnext : s'.nextId = s.nextId) (hvalues : s'.values = s.values) (hclosing : s.closing = true → s'.closing = true)
    (hh : s.history.Extends Entry.Clerical s'.history) (hbase : s'.metadata.baseUrl = s.metadata.baseUrl)
    (hf : via s.footing s'.footing) : Proceeds via s s' :=
  .aside ⟨.of_same hregistry hdetached hnext hvalues hclosing hh, hbase, hf⟩

theorem Proceeds.enter (hv : Footing.Sends via) (s : Session κ τ ω σ) {e : Entry} (he : e.Clerical) :
    Proceeds via s (s.enter e) := .of_same rfl rfl rfl rfl (fun h => h) (.cons he .refl) rfl (hv.refl _)

theorem Proceeds.note (hv : Footing.Sends via) (s : Session κ τ ω σ) (level : Log.Level) (message : Bytes)
    (source : String) : Proceeds via s (s.note level message source) :=
  .of_same rfl rfl rfl rfl (fun h => h) (.cons trivial .refl) rfl (hv.refl _)

theorem proceeds_foldl {α : Type} {f : Session κ τ ω σ → α → Session κ τ ω σ} {as : List α} (hv : Footing.Sends via)
    (h : s.Poised via r) (hf : ∀ u, ∀ a ∈ as, Proceeds via s u → u.Poised via r → Proceeds via u (f u a)) :
    Proceeds via s (as.foldl f s) := by
  suffices hall : ∀ u, Proceeds via s u → Proceeds via s (as.foldl f u) from hall s (.refl hv s)
  induction as with
  | nil => exact fun u hu => hu
  | cons a as ih =>
    intro u hu
    have hfirst := hf u a List.mem_cons_self hu (h.later hv hu)
    exact ih (fun v b hb => hf v b (List.mem_cons_of_mem a hb)) _ (hu.trans hfirst)

theorem proceeds_tell (hv : Footing.Sends via) (h : s.Poised via r) (n : Notice ω) : Proceeds via s (s.tell r n) := by
  unfold tell
  split
  · rename_i loop hpost
    obtain ⟨-, rfl⟩ := Loop.post_eq_some_iff.1 hpost
    exact .of_same rfl rfl rfl rfl (fun h => h) .refl rfl (hv.refl _)
  · rename_i hpost
    have hstopped : s.loop.stopped ≠ false := fun hrunning =>
      Option.some_ne_none _ ((Loop.post_eq_some_iff.2 ⟨hrunning, rfl⟩).symm.trans hpost)
    have hruns := h.tells.resolve_left fun hrunning => hstopped hrunning.1
    exact (Proceeds.note hv s _ _ _).next hv h fun h => hruns _ _ _ h.tidy

theorem proceeds_tellAll (hv : Footing.Sends via) (h : s.Poised via r) (os : List ω) (news : News) :
    Proceeds via s (s.tellAll r os news) :=
  proceeds_foldl hv h fun _ o _ _ hu => proceeds_tell hv hu ⟨o, news⟩

theorem proceeds_settle (hv : Footing.Sends via) (h : s.Poised via r) {outcome : Outcome}
    (hdone : ∀ x ∈ s.inPlay, x.ticket = ticket → x.state = .closed) (hreason : outcome.reason ≠ .ended)
    (haborts : outcome.reason = .reset →
      ∃ x ∈ s.inPlay, x.ticket = ticket ∧ s.history.Aborts x.id outcome.causes) :
    Proceeds via s (s.settle r ticket outcome) := by
  rcases settle_cases r ticket outcome s with ⟨-, heq | heq⟩ | ⟨os, hopen, heq⟩
  · rw [heq]
    exact .refl hv s
  · rw [heq]
    exact .note hv s _ _ _
  · have hgiven : Proceeds via s (s.given ticket outcome) := .settle hopen hdone hreason haborts
    rw [heq]
    exact hgiven.next hv h fun h => proceeds_tellAll hv h os _

theorem proceeds_finish (hv : Footing.Sends via) (h : s.Poised via r) {reason : CloseReason} (causes : List Fault)
    (hx : s.Retired x.ticket) (hended : reason ≠ .ended) (hreset : reason ≠ .reset) :
    Proceeds via s (s.finish r x reason causes) := by
  obtain ⟨history, hh, hfinish⟩ := finish_cases r x reason causes s
  have hlines : Proceeds via s { s with history } :=
    .of_same rfl rfl rfl rfl (fun h => h) (hh.imp fun _ => Entry.IsStreamLine.clerical) rfl (hv.refl _)
  rcases hfinish with ⟨-, heq⟩ | ⟨-, heq⟩
  · rw [heq]
    exact hlines
  · rw [heq]
    refine hlines.next hv h fun h => proceeds_settle hv h (fun y hy hticket => ?_) hended fun hr => absurd hr hreset
    exact absurd hticket (hx.2 y hy)

theorem proceeds_announceLoss (hv : Footing.Sends via) (h : s.Poised via r) : Proceeds via s (s.announceLoss r) := by
  unfold announceLoss
  split
  · exact .refl hv s
  · split
    · exact .note hv s _ _ _
    · rename_i os c _
      have hannounced : Proceeds via s ({ s with lossNotice := some c }.enter (.lossAnnounced s.causes)) :=
        .of_same rfl rfl rfl rfl (fun h => h) (.cons trivial .refl) rfl (hv.refl _)
      exact hannounced.next hv h fun h => proceeds_tellAll hv h os _

theorem proceeds_observe (hv : Footing.Sends via) (h : s.Poised via r) (ticket : Ticket) (o : ω) :
    Proceeds via s (s.observe r ticket o) := by
  unfold observe
  split
  · exact .refl hv s
  · rename_i c hc
    have hvalue := Completion.value_observe c o
    split
    · rename_i c' hobserve
      rw [hobserve] at hvalue
      exact .of_same rfl rfl rfl (values_set_same hc hvalue) (fun h => h) .refl rfl (hv.refl _)
    · exact proceeds_tell hv h _

/-! Exchanges that leave. -/

omit [Codec κ] in
theorem Clerical.refl (s : Session κ τ ω σ) : Clerical s s := .of_same rfl rfl rfl rfl (fun h => h) .refl

omit [Codec κ] in
theorem Clerical.trans (h : Clerical s u) (h' : Clerical u s') : Clerical s s' where
  entries := by
    intro z hz
    obtain ⟨y, hy, hid, hitem⟩ := h'.entries z hz
    obtain ⟨x, hx, hid', hitem'⟩ := h.entries y hy
    exact ⟨x, hx, hid.trans hid', hitem.trans hitem'⟩
  inPlay := h'.inPlay.trans h.inPlay
  nextId := h'.nextId.trans h.nextId
  values := by
    obtain ⟨n, hn⟩ := h.values
    obtain ⟨k, hk⟩ := h'.values
    refine ⟨n + k, ?_⟩
    rw [hk, hn, List.append_assoc, List.replicate_append_replicate]
  closing := fun hc => h'.closing (h.closing hc)
  history := h.history.trans h'.history

theorem Aside.trans (hv : Footing.Sends via) (h : Aside via s u) (h' : Aside via u s') : Aside via s s' where
  toClerical := h.toClerical.trans h'.toClerical
  baseUrl := h'.baseUrl.trans h.baseUrl
  footing := hv.trans h.footing h'.footing

theorem aside_note (hv : Footing.Sends via) (s : Session κ τ ω σ) (level : Log.Level) (message : Bytes)
    (source : String) : Aside via s (s.note level message source) :=
  ⟨.of_same rfl rfl rfl rfl (fun h => h) (.cons trivial .refl), rfl, hv.refl _⟩

theorem aside_giveUp (hv : Footing.Sends via) (x : Stream) (s : Session κ τ ω σ) : Aside via s (s.giveUp x) := by
  unfold giveUp
  split
  · exact ⟨.refl s, rfl, hv.refl _⟩
  · exact aside_note hv s _ _ _

theorem aside_letGo (hv : Footing.Sends via) (ticket : Ticket) (s : Session κ τ ω σ) :
    Aside via s (s.letGo ticket) := by
  have herased : Clerical s { s with held := s.held.erase ticket } := .of_same rfl rfl rfl rfl (fun h => h) .refl
  unfold letGo
  dsimp only
  split
  · exact ⟨herased, rfl, hv.refl _⟩
  · split
    · exact ⟨herased, rfl, hv.refl _⟩
    · have hdropped : Clerical s
          { s with held := s.held.erase ticket, detached := s.detached.filter (·.ticket != ticket) } := {
        entries := fun y hy => ⟨y, hy, rfl, rfl⟩
        inPlay := (List.Subperm.refl _).append List.filter_sublist.subperm
        nextId := rfl
        values := ⟨0, (List.append_nil _).symm⟩
        closing := fun h => h
        history := .refl }
      exact Aside.trans hv ⟨hdropped, rfl, hv.refl _⟩ (aside_giveUp hv _ _)

theorem aside_release (hv : Footing.Sends via) (id : UInt32) (s : Session κ τ ω σ) : Aside via s (s.release id).2 := by
  unfold release
  split
  · exact aside_note hv s _ _ _
  · rename_i x registry h
    dsimp only
    split
    · exact ⟨clerical_detach h, rfl, hv.refl _⟩
    · exact Aside.trans hv ⟨clerical_remove h, rfl, hv.refl _⟩ (aside_giveUp hv x _)

omit [Codec κ] in
theorem registry_giveUp (x : Stream) (s : Session κ τ ω σ) : (s.giveUp x).registry = s.registry := by
  unfold giveUp
  split <;> rfl

omit [Codec κ] in
theorem ne_of_release (id : UInt32) (s : Session κ τ ω σ) : ∀ e ∈ (s.release id).2.registry.entries, e.id ≠ id := by
  unfold release
  split
  · rename_i h
    exact Registry.ne_of_remove h
  · rename_i x registry h
    have hgone : ∀ e ∈ registry.entries, e.id ≠ id := by
      have hsnd : (s.registry.remove id).2 = registry := congrArg Prod.snd h
      rw [← hsnd]
      unfold Registry.remove
      split
      · rename_i hnone
        exact Registry.findEntry_eq_none_iff.1 hnone
      · dsimp only
        split <;> exact fun e he => by simpa using (List.mem_filter.1 he).2
    dsimp only
    split
    · exact hgone
    · rw [registry_giveUp]
      exact hgone

/-! Turns and admission. -/

theorem proceeds_turn (hv : Footing.Sends via) (h : s.Poised via r) {act : Metadata → Turn κ → Turn κ}
    (hact : Turn.Follows via act) (ha : ∀ x, s.streamOf ticket = some x → s.Prompt x act) :
    Proceeds via s (s.turn r ticket act).2 := by
  unfold turn
  split
  · exact .refl hv s
  · rename_i x hfind
    obtain ⟨hx, rfl⟩ := mem_of_streamOf hfind
    have hprompt := ha x hfind
    have hcontinues := hprompt.continues
    have hf : via s.footing (s.turned (act s.metadata (s.turnOf x))).footing :=
      hact s.metadata (s.turnOf x) s.loop.stopped
    dsimp only
    split
    · rename_i he
      exact .turn hx hprompt he hf
    · rename_i e he
      obtain ⟨hclosed, hannounce, hended, haborts⟩ := hprompt.accounts e he
      have hturned : (s.turned (act s.metadata (s.turnOf x))).Poised via r :=
        ⟨h.tidy.turned hx hcontinues.id hcontinues.ticket, h.tells.imp_left fun hrunning => ⟨hrunning.1, hrunning.2⟩⟩
      have hin : (act s.metadata (s.turnOf x)).stream ∈ (s.turned (act s.metadata (s.turnOf x))).inPlay :=
        (mem_inPlay_turned h.tidy hx hcontinues.ticket).2 (Or.inl rfl)
      have hsettled : Proceeds via (s.turned (act s.metadata (s.turnOf x)))
          ((s.turned (act s.metadata (s.turnOf x))).settle r x.ticket e.outcome) := by
        refine proceeds_settle hv hturned (fun y hy hticket => ?_) hended fun hreset =>
          ⟨_, hin, hcontinues.ticket, haborts hreset⟩
        rw [hturned.tidy.eq_of_ticket hy hin (hticket.trans hcontinues.ticket.symm)]
        exact hclosed
      have hending : (act s.metadata (s.turnOf x)).ending ≠ none := fun hnone => nomatch he.symm.trans hnone
      rw [if_pos hannounce]
      exact .last hx hprompt hending hf hsettled (aside_release hv x.id _) (ne_of_release x.id _)

variable [Transport τ]

theorem proceeds_begin (hv : Footing.Sends via) (h : s.Poised via r) (x : Stream) : Proceeds via s (s.begin r x) := by
  have hrecorded : Proceeds via s (s.recordAdmission x) :=
    (Proceeds.note hv s .debug _ "Session").trans (.enter hv _ trivial)
  refine hrecorded.next hv h fun h => proceeds_turn hv h (Turn.follows_initiate hv) fun y hfind => ?_
  obtain ⟨-, hticket⟩ := mem_of_streamOf hfind
  apply Prompt.start
  rw [hticket]
  rfl

theorem proceeds_admitUpTo (hv : Footing.Sends via) (h : s.Poised via r) (n : Nat) :
    Proceeds via s (s.admitUpTo r n) := by
  induction n generalizing s with
  | zero => exact .refl hv s
  | succ n ih =>
    unfold admitUpTo
    split
    · have hnext : Proceeds via s { s with registry := s.registry.admitNext.2 } :=
        .aside ⟨clerical_admitNext s, rfl, hv.refl _⟩
      split
      · rename_i registry heq
        rw [heq] at hnext
        exact hnext
      · rename_i x registry heq
        rw [heq] at hnext
        have hbegun := hnext.next hv h fun h => proceeds_begin hv h x
        exact hbegun.next hv h ih
    · exact .refl hv s

theorem proceeds_admitQueued (hv : Footing.Sends via) (h : s.Poised via r) : Proceeds via s (s.admitQueued r) := by
  unfold admitQueued
  split
  · exact .refl hv s
  · have hshut : Proceeds via s { s with admitting := true } :=
      .of_same rfl rfl rfl rfl (fun h => h) .refl rfl (hv.refl _)
    have hdone := hshut.next hv h fun h => proceeds_admitUpTo hv h (s.registry.pendingCount + s.idsLeft)
    exact hdone.trans (.of_same rfl rfl rfl rfl (fun h => h) .refl rfl (hv.refl _))

theorem proceeds_step (hv : Footing.Sends via) (h : s.Poised via r) {act : Metadata → Turn κ → Turn κ}
    (hact : Turn.Follows via act) (ha : ∀ x, s.streamOf ticket = some x → s.Prompt x act) :
    Proceeds via s (s.step r ticket act) := by
  have hturn := proceeds_turn hv h hact ha
  rw [step_eq]
  split
  · exact hturn.next hv h fun h => proceeds_admitQueued hv h
  · exact hturn

theorem proceeds_streamClosed (hv : Footing.Sends via) (h : s.Poised via r) (id : UInt32) :
    Proceeds via s (s.streamClosed r id) := by
  have hreleased : Proceeds via s (s.release id).2 := .aside (aside_release hv id s)
  unfold streamClosed
  split
  · rename_i u heq
    rw [heq] at hreleased
    exact hreleased.next hv h fun h => proceeds_admitQueued hv h
  · rename_i u heq
    rw [heq] at hreleased
    exact hreleased

/-! The end of the connection. -/

omit [Transport τ] in
theorem proceeds_dismissAll (hv : Footing.Works via) (h : s.Poised via r) : Proceeds via s (s.dismissAll r) := by
  have hcleared : Proceeds via s { s with registry := s.registry.clear } :=
    .aside ⟨clerical_clear s, rfl, hv.refl _⟩
  have hdismissed : Proceeds via { s with registry := s.registry.clear }
      (s.registry.snapshot.foldl (dismiss r) { s with registry := s.registry.clear }) := by
    have htidy := (h.later hv.toSends hcleared).tidy
    refine proceeds_foldl hv.toSends (h.later hv.toSends hcleared) fun u x hx hu hpoised => ?_
    have hretired := (hu.changes htidy).retired htidy (h.tidy.retired_of_cleared hx)
    unfold dismiss
    split
    · exact proceeds_finish hv.toSends hpoised _ hretired CloseReason.noConfusion CloseReason.noConfusion
    · exact proceeds_finish hv.toSends hpoised _ hretired CloseReason.noConfusion CloseReason.noConfusion
  refine (hcleared.trans hdismissed).trans ?_
  exact .of_same rfl rfl rfl rfl (fun h => h) (.cons trivial .refl) rfl (hv.close _ _ _)

omit [Transport τ] in
theorem proceeds_transportLost (hv : Footing.Works via) (h : s.Poised via r) (cause : Option Fault) :
    Proceeds via s (s.transportLost r cause) := by
  rcases transportLost_cases r cause s with ⟨-, message, heq⟩ | ⟨-, message, heq⟩
  · rw [heq]
    exact .note hv.toSends s _ _ _
  · have hlost : Proceeds via s (s.losing cause) :=
      .of_same rfl rfl rfl rfl (fun _ => rfl) .refl rfl (hv.refl _)
    have hlosing := hlost.trans (.note hv.toSends _ .info message "Session")
    have hannounced := hlosing.next hv.toSends h fun h => proceeds_announceLoss hv.toSends h
    rw [heq]
    exact hannounced.next hv.toSends h fun h => proceeds_dismissAll hv h

theorem proceeds_loseWith (hv : Footing.Works via) (h : s.Poised via r) (cause : Fault) :
    Proceeds via s (s.loseWith r cause) := by
  cases hl : s.lost with
  | true =>
    rw [show s.loseWith r cause = s.note .debug _ from if_pos hl]
    exact .note hv.toSends s _ _ _
  | false =>
    cases hc : s.closing with
    | true =>
      rw [loseWith_again hl hc]
      exact .of_same rfl rfl rfl rfl (fun h => h) .refl rfl (hv.refl _)
    | false =>
      cases ht : s.transport with
      | none =>
        have hresolved : Proceeds via s (s.resolved cause) :=
          .of_same rfl rfl rfl rfl (fun _ => rfl) .refl rfl (hv.refl _)
        rw [loseWith_absent hl hc ht]
        exact hresolved.next hv.toSends h fun h => proceeds_transportLost hv h none
      | some t =>
        have hasking : Aside via s ({ s.resolved cause with transport := some (Transport.lose t).2 } :
            Session κ τ ω σ) := ⟨.of_same rfl rfl rfl rfl (fun _ => rfl) .refl, rfl, hv.refl _⟩
        have hasked : Proceeds via s (s.asked cause t) := .lose hasking hc rfl
        rw [loseWith_asked hl hc ht]
        split
        · exact hasked
        · exact hasked.next hv.toSends h fun h => proceeds_transportLost hv h none
        · exact hasked.next hv.toSends h fun h => proceeds_transportLost hv h _

theorem proceeds_flush (hv : Footing.Works via) (h : s.Poised via r) : Proceeds via s (s.flush r) := by
  rcases flush_cases r s with ⟨-, heq | ⟨message, heq⟩⟩ | ⟨t, -, -, -, heq | ⟨message, cause, heq⟩⟩
  · rw [heq]
    exact .of_same rfl rfl rfl rfl (fun h => h) .refl rfl (hv.takeOutput _ _)
  · rw [heq]
    exact .of_same rfl rfl rfl rfl (fun h => h) (.cons trivial .refl) rfl (hv.takeOutput _ _)
  · rw [heq]
    exact .of_same rfl rfl rfl rfl (fun h => h) (.cons trivial .refl) rfl (hv.takeOutput _ _)
  · have hwritten : Proceeds via s ((s.written t).note .error message) :=
      .of_same rfl rfl rfl rfl (fun h => h) (.cons trivial (.cons trivial .refl)) rfl (hv.takeOutput _ _)
    rw [heq]
    exact hwritten.next hv.toSends h fun h => proceeds_loseWith hv h cause

omit [Transport τ] in
theorem proceeds_discard (hv : Footing.Works via) (h : s.Poised via r) : Proceeds via s (s.discard r) := by
  unfold discard
  split
  · exact .refl hv.toSends s
  · have hdropped : Proceeds via s { s with transport := none } :=
      .of_same rfl rfl rfl rfl (fun h => h) .refl rfl (hv.refl _)
    exact hdropped.next hv.toSends h fun h => proceeds_transportLost hv h none

/-! Events. -/

omit [Transport τ] in
theorem proceeds_withStream (hv : Footing.Sends via) (h : s.Poised via r) {event : Event}
    {act : Stream → Session κ τ ω σ → Session κ τ ω σ} {otherwise : Session κ τ ω σ → Session κ τ ω σ}
    (hact : ∀ x ∈ s.inPlay, x.id = event.stream → Proceeds via s (act x s))
    (hother : ∀ u, Proceeds via u (otherwise u)) : Proceeds via s (s.withStream event act otherwise) := by
  unfold withStream
  split
  · rename_i x hfind
    obtain ⟨e, he, hid, rfl⟩ := mem_of_find hfind
    exact hact e.item (mem_inPlay_of_entry he) ((h.tidy.ids e he).trans hid)
  · exact (Proceeds.note hv s _ _ "Session").trans (hother _)

theorem proceeds_receive (hv : Footing.Sends via) (h : s.Poised via r) {act : Metadata → Turn κ → Turn κ}
    (hact : Turn.Follows via act) (hx : x ∈ s.inPlay) (ha : s.Prompt x act) :
    Proceeds via s (s.step r x.ticket act) := by
  refine proceeds_step hv h hact fun y hfind => ?_
  obtain ⟨hy, hticket⟩ := mem_of_streamOf hfind
  rwa [h.tidy.eq_of_ticket hy hx hticket]

omit [Transport τ] in
theorem proceeds_ended (hv : Footing.Sends via) (h : s.Poised via r) {registry : Registry Stream} {earlier : History}
    (hx : s.registry.remove x.id = (some x, registry)) (hh : s.history = .dispatched ⟨x.id, .ended⟩ :: earlier) :
    Proceeds via s (({ s with registry } : Session κ τ ω σ).finish r x .ended []) := by
  obtain ⟨history, hlines, hfinish⟩ := finish_cases r x .ended [] ({ s with registry } : Session κ τ ω σ)
  have hremoved : Proceeds via s { s with registry } := .aside ⟨clerical_remove hx, rfl, hv.refl _⟩
  have hnoted : Proceeds via s { s with registry, history } := hremoved.trans
    (.of_same rfl rfl rfl rfl (fun h => h) (hlines.imp fun _ => Entry.IsStreamLine.clerical) rfl (hv.refl _))
  rcases hfinish with ⟨-, heq⟩ | ⟨hs, heq⟩
  · rw [heq]
    exact hnoted
  · rw [heq]
    rcases settle_cases r x.ticket (x.outcome s.metadata .ended []) ({ s with registry, history } : Session κ τ ω σ)
      with ⟨-, hsettle | hsettle⟩ | ⟨os, hopen, hsettle⟩
    · rw [hsettle]
      exact hnoted
    · rw [hsettle]
      exact hnoted.trans (.note hv _ _ _ _)
    · have hgiven : Proceeds via s (({ s with registry, history } : Session κ τ ω σ).given x.ticket
          (x.outcome s.metadata .ended [])) := .conclude hx hs hopen hh hlines rfl
      rw [hsettle]
      exact hgiven.next hv h fun h => proceeds_tellAll hv h os _

omit [Transport τ] in
theorem proceeds_resetByPeer (hv : Footing.Sends via) (h : s.Poised via r) {registry : Registry Stream}
    {code : ErrorCode} {earlier : History} (hx : s.registry.remove x.id = (some x, registry))
    (hh : s.history = .dispatched ⟨x.id, .reset code⟩ :: earlier) :
    Proceeds via s (({ s with registry } : Session κ τ ω σ).resetByPeer r code x) := by
  let noted : Session κ τ ω σ :=
    ({ s with registry } : Session κ τ ω σ).note .info (x.label ++ ascii " reset by peer: " ++ code.text)
  let causes : List Fault := [⟨.streamReset, ascii "Stream reset with " ++ code.text⟩]
  obtain ⟨history, hlines, hfinish⟩ := finish_cases r x .reset causes noted
  have hline : s.history.Extends Entry.IsLine history :=
    (History.Extends.refl.cons ⟨_, rfl⟩).trans (hlines.imp fun _ => Entry.IsStreamLine.isLine)
  have hremoved : Proceeds via s { s with registry } := .aside ⟨clerical_remove hx, rfl, hv.refl _⟩
  have hnoted : Proceeds via s { s with registry, history } := hremoved.trans
    (.of_same rfl rfl rfl rfl (fun h => h) (hline.imp fun _ => Entry.IsLine.clerical) rfl (hv.refl _))
  change Proceeds via s (noted.finish r x .reset causes)
  rcases hfinish with ⟨-, heq⟩ | ⟨hs, heq⟩
  · rw [heq]
    exact hnoted
  · rcases settle_cases r x.ticket (x.outcome s.metadata .reset causes) ({ s with registry, history } : Session κ τ ω σ)
      with ⟨-, hsettle | hsettle⟩ | ⟨os, hopen, hsettle⟩
    · rw [heq.trans hsettle]
      exact hnoted
    · rw [heq.trans hsettle]
      exact hnoted.trans (.note hv _ _ _ _)
    · have haborts : history.Aborts x.id causes := .peer code (hh ▸ hline)
      have hgiven : Proceeds via s (({ s with registry, history } : Session κ τ ω σ).given x.ticket
          (x.outcome s.metadata .reset causes)) := .abort hx hopen hline rfl haborts
      rw [heq.trans hsettle]
      exact hgiven.next hv h fun h => proceeds_tellAll hv h os _

theorem proceeds_concludeStream (hv : Footing.Sends via) (h : s.Poised via r) {event : Event}
    {act : Stream → Session κ τ ω σ → Session κ τ ω σ}
    (hact : ∀ x registry, x.id = event.stream → s.registry.remove x.id = (some x, registry) →
      Proceeds via s (act x { s with registry })) : Proceeds via s (s.concludeStream r event act) := by
  unfold concludeStream
  split
  · rename_i x registry hremove
    obtain ⟨e, he, hid, rfl⟩ := Registry.mem_of_remove hremove
    have hsame : e.item.id = event.stream := (h.tidy.ids e he).trans hid
    have hacted := hact e.item registry hsame (hsame ▸ hremove)
    exact hacted.next hv h fun h => proceeds_admitQueued hv h
  · exact .note hv s _ _ _

theorem proceeds_resume (hv : Footing.Sends via) (h : s.Poised via r) (ticket : Ticket) :
    Proceeds via s (s.resume r ticket) := by
  unfold resume
  split
  · exact .refl hv s
  · split
    · exact .refl hv s
    · exact proceeds_step hv h (Turn.follows_receiveWindowUpdate hv) fun _ _ => .window

theorem proceeds_resumeEach (hv : Footing.Sends via) (h : s.Poised via r) (tickets : List Ticket) :
    Proceeds via s (tickets.foldl (resume r) s) :=
  proceeds_foldl hv h fun _ ticket _ _ hu => proceeds_resume hv hu ticket

omit [Transport τ] in
theorem proceeds_hold (hv : Footing.Sends via) (tickets : List Ticket) (s : Session κ τ ω σ) :
    Proceeds via s (s.hold tickets) := .of_same rfl rfl rfl rfl (fun h => h) .refl rfl (hv.refl _)

omit [Transport τ] in
theorem proceeds_letGoEach (hv : Footing.Sends via) (h : s.Poised via r) (tickets : List Ticket) :
    Proceeds via s (tickets.foldl (fun s ticket => s.letGo ticket) s) :=
  proceeds_foldl hv h fun u ticket _ _ _ => .aside (aside_letGo hv ticket u)

theorem proceeds_resumeAll (hv : Footing.Sends via) (h : s.Poised via r) : Proceeds via s (s.resumeAll r) := by
  have hresumed := (proceeds_hold hv s.registry.tickets s).next hv h fun h =>
    proceeds_resumeEach hv h s.registry.tickets
  rw [resumeAll_eq]
  exact hresumed.next hv h fun h => proceeds_letGoEach hv h s.registry.tickets

theorem proceeds_acknowledgeSettings (hv : Footing.Sends via) (s : Session κ τ ω σ) :
    Proceeds via s s.acknowledgeSettings := by
  unfold acknowledgeSettings
  dsimp only
  split
  · exact .of_same rfl rfl rfl rfl (fun h => h) (.cons trivial (.cons trivial .refl)) rfl (hv.refl _)
  · exact .of_same rfl rfl rfl rfl (fun h => h) (.cons trivial (.cons trivial .refl)) rfl (hv.refl _)
  · exact .of_same rfl rfl rfl rfl (fun h => h) (.cons trivial .refl) rfl (hv.refl _)

theorem proceeds_windowUpdated (hv : Footing.Sends via) (h : s.Poised via r) {event : Event}
    (he : event.body = .windowUpdated) : Proceeds via s (s.handle r event) := by
  unfold handle
  rw [he]
  dsimp only
  split
  · exact proceeds_resumeAll hv h
  · exact proceeds_withStream hv h (fun x hx _ => proceeds_receive hv h (Turn.follows_receiveWindowUpdate hv) hx .window)
      fun u => .refl hv u

theorem proceeds_handle (hv : Footing.Works via) (h : s.Poised via r) {event : Event} {earlier : History}
    (hh : s.history = .dispatched event :: earlier) : Proceeds via s (s.handle r event) := by
  obtain ⟨stream, body⟩ := event
  unfold handle
  cases body with
  | response fields =>
    refine proceeds_withStream hv.toSends h (fun x hx hid => ?_) fun u => .refl hv.toSends u
    exact proceeds_receive hv.toSends h (Turn.follows_receiveHeaders hv fields) hx (.head fields earlier (hid ▸ hh))
  | data bytes length =>
    refine proceeds_withStream hv.toSends h (fun x hx hid => ?_) fun u => ?_
    · exact proceeds_receive hv.toSends h (Turn.follows_receiveData hv bytes length) hx
        (.data bytes length earlier (hid ▸ hh))
    · exact .of_same rfl rfl rfl rfl (fun h => h) (.cons trivial .refl) rfl (hv.acknowledge _ _ _ _)
  | ended =>
    refine proceeds_concludeStream hv.toSends h fun x registry hid hx => ?_
    have hdispatched : s.history = .dispatched ⟨x.id, .ended⟩ :: earlier := by
      rw [show x.id = stream from hid]
      exact hh
    exact proceeds_ended hv.toSends h hx hdispatched
  | reset code =>
    refine proceeds_concludeStream hv.toSends h fun x registry hid hx => ?_
    have hdispatched : s.history = .dispatched ⟨x.id, .reset code⟩ :: earlier := by
      rw [show x.id = stream from hid]
      exact hh
    exact proceeds_resetByPeer hv.toSends h hx hdispatched
  | windowUpdated => exact proceeds_windowUpdated hv.toSends h (show (Event.mk stream .windowUpdated).body = _ from rfl)
  | settingsAcknowledged =>
    exact (proceeds_acknowledgeSettings hv.toSends s).next hv.toSends h fun h => proceeds_admitQueued hv.toSends h
  | remoteSettingsChanged => exact proceeds_admitQueued hv.toSends h
  | terminated code last debug =>
    exact (Proceeds.note hv.toSends s .warn _ "Session").next hv.toSends h fun h => proceeds_loseWith hv h _
  | unknownFrame frame => exact .note hv.toSends s _ _ _
  | unlisted kind => exact .refl hv.toSends s

theorem proceeds_handleAll (hv : Footing.Works via) (h : s.Poised via r) (events : List Event) :
    Proceeds via s (s.handleAll r events) := by
  refine proceeds_foldl hv.toSends h fun u event _ _ hu => ?_
  split
  · exact .refl hv.toSends u
  · have hentered : Proceeds via u (u.enter (.dispatched event)) := .enter hv.toSends u trivial
    exact hentered.next hv.toSends hu fun hu => proceeds_handle hv hu rfl

/-! Operations. -/

theorem proceeds_submit_of_taken (hv : Footing.Works via) (h : s.Poised via r) (request : Request)
    (hopen : s.refusal = none) : Proceeds via (s.queued request) (s.submit r request).2 := by
  obtain ⟨message, heq⟩ := submit_of_above r request (fun e he => h.tidy.above he) hopen
  have hpoised := h.later hv.toSends (.queue request hopen)
  have hheld : Proceeds via (s.queued request)
      (((s.queued request).note .debug message).hold [s.completions.length]) :=
    (Proceeds.note hv.toSends _ .debug message "Session").trans (proceeds_hold hv.toSends _ _)
  have hadmitted := hheld.next hv.toSends hpoised fun h => proceeds_admitQueued hv.toSends h
  have hflushed := hadmitted.next hv.toSends hpoised fun h => proceeds_flush hv h
  rw [heq]
  exact hflushed.trans (.aside (aside_letGo hv.toSends _ _))

theorem proceeds_submit (hv : Footing.Works via) (h : s.Poised via r) (request : Request) :
    Proceeds via s (s.submit r request).2 := by
  cases hrefusal : s.refusal with
  | none =>
    have hqueued : Proceeds via s (s.queued request) := .queue request hrefusal
    exact hqueued.trans (proceeds_submit_of_taken hv h request hrefusal)
  | some cause =>
    obtain ⟨message, heq⟩ := submit_of_refused r request hrefusal
    have hissued : Proceeds via s (s.note .warn message).issueTicket.2 := by
      refine .aside ⟨⟨fun y hy => ⟨y, hy, rfl, rfl⟩, .refl _, rfl, ⟨1, ?_⟩, fun h => h, .cons trivial .refl⟩,
        rfl, hv.refl _⟩
      exact List.map_append
    rw [heq]
    refine hissued.next hv.toSends h fun h' => proceeds_finish hv.toSends h' [cause] ⟨?_, fun y hy => ?_⟩
      CloseReason.noConfusion CloseReason.noConfusion
    · rw [show (s.note .warn message).issueTicket.2.completions.length = s.completions.length + 1 from
        List.length_append]
      exact Nat.lt_succ_self _
    · exact Nat.ne_of_lt (h.tidy.issued y hy)

theorem proceeds_established (hv : Footing.Works via) (h : s.Poised via r) (transport : Option τ) :
    Proceeds via s (s.established r transport) := by
  rcases established_cases r transport s with ⟨level, message, heq⟩ | ⟨t, -, heq⟩
  · rw [heq]
    exact .note hv.toSends s _ _ _
  · have hopening : Proceeds via s (s.opening t) :=
      .of_same rfl rfl rfl rfl (fun h => h) (.cons trivial (.cons trivial .refl)) rfl (hv.initiate _ _ _)
    rw [heq]
    exact hopening.next hv.toSends h fun h => proceeds_flush hv h

theorem proceeds_handshakeCompleted (hv : Footing.Works via) (h : s.Poised via r) :
    Proceeds via s (s.handshakeCompleted r) := by
  unfold handshakeCompleted
  split
  · exact .refl hv.toSends s
  · dsimp only
    split
    · exact .refl hv.toSends s
    · exact (Proceeds.note hv.toSends s .error _ "Session").next hv.toSends h fun h => proceeds_loseWith hv h _

theorem proceeds_bytesReceived (hv : Footing.Works via) (hhears : Footing.Hears via) (h : s.Poised via r)
    (data : Bytes) : Proceeds via s (s.bytesReceived r data) := by
  unfold bytesReceived
  split
  · exact .note hv.toSends s _ _ _
  · have hreceived : Proceeds via s (s.received data) :=
      .of_same rfl rfl rfl rfl (fun h => h) (.cons trivial .refl) rfl (hhears _ _ _)
    dsimp only
    split
    · rename_i events _
      have hhandled := hreceived.next hv.toSends h fun h => proceeds_handleAll hv h events
      exact hhandled.next hv.toSends h fun h => proceeds_flush hv h
    · have hflushed := fun message => (hreceived.trans (.note hv.toSends _ .error message "Session")).next hv.toSends h
        fun h => proceeds_flush hv h
      exact (hflushed _).next hv.toSends h fun h => proceeds_loseWith hv h _

theorem proceeds_idleTimeout (hv : Footing.Works via) (h : s.Poised via r) : Proceeds via s (s.idleTimeout r) := by
  unfold idleTimeout
  split
  · exact .refl hv.toSends s
  · have hfarewell : ∀ message code, Proceeds via s ((s.note .warn message).closeCodec code) := fun message code =>
      .of_same rfl rfl rfl rfl (fun h => h) (.cons trivial (.cons trivial .refl)) rfl (hv.close _ _ _)
    have hflushed := fun message code => (hfarewell message code).next hv.toSends h fun h => proceeds_flush hv h
    exact (hflushed _ _).next hv.toSends h fun h => proceeds_loseWith hv h _

/-- Whatever is asked of a connection, it proceeds in this way. -/
theorem proceeds_meet (hv : Footing.Works via) (h : s.Poised via r) (d : Demand τ ω)
    (hhears : ∀ data, d = .operation (.bytesReceived data) → Footing.Hears via) : Proceeds via s (s.meet r d) := by
  cases d with
  | streamClosed id => exact proceeds_streamClosed hv.toSends h id
  | operation op =>
    cases op with
    | submit request => exact proceeds_submit hv h request
    | observe ticket observer => exact proceeds_observe hv.toSends h ticket observer
    | established transport => exact proceeds_established hv h transport
    | handshakeCompleted => exact proceeds_handshakeCompleted hv h
    | bytesReceived data => exact proceeds_bytesReceived hv (hhears data rfl) h data
    | idleTimeout => exact proceeds_idleTimeout hv h
    | checkIdle =>
      unfold meet perform checkIdle
      dsimp only
      split
      · exact .refl hv.toSends s
      · exact proceeds_idleTimeout hv h
    | transportLost cause => exact proceeds_transportLost hv h cause
    | discard => exact proceeds_discard hv h

theorem Sheltered.proceeds {may : Demand τ ω → Prop} {around : Session κ τ ω σ → Drift κ τ ω σ → Prop}
    (hv : Footing.Works via) (hhears : ∀ data, may (.operation (.bytesReceived data)) → Footing.Hears via)
    (hdrift : ∀ (u : Session κ τ ω σ) d, around u d → via u.footing (u.drift d).footing)
    (hstop : ∀ c stopped, via (c, stopped) (c, true)) (h : Sheltered may around s s') (ht : s.Tidy) :
    Proceeds via s s' := by
  induction h with
  | refl s => exact .refl hv.toSends s
  | meet _ r _ d hd ih ihr =>
    have hbefore := ih ht
    refine hbefore.trans (proceeds_meet hv ⟨(hbefore.changes ht).tidy ht, Or.inr ihr⟩ d ?_)
    rintro data rfl
    exact hhears data hd
  | drift _ d hd ih => exact (ih ht).trans (.of_same rfl rfl rfl rfl (fun h => h) .refl rfl (hdrift _ d hd))
  | stop _ ih => exact (ih ht).trans (.of_same rfl rfl rfl rfl (fun h => h) .refl rfl (hstop _ _))

theorem FreeRun.proceeds (h : FreeRun s s') (ht : s.Tidy) : Proceeds (fun _ _ => True) s s' :=
  h.sheltered.proceeds Footing.works_true (fun _ _ _ _ _ => trivial) (fun _ _ _ => trivial) (fun _ _ => trivial) ht

end Session

end Multiplex

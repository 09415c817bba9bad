import Multiplex.Proofs.Execution
import Multiplex.Proofs.Isolation
import Multiplex.Proofs.Resumption

/-! Whom a change of the peer's settings wakes. It may open the window of a request that is held up, but all that it
does is let queued exchanges start: those that run stay as they are. An exchange that starts sends until the codec takes
no more, so the requests that are held up with an open window afterwards are those that were so before. -/
namespace Multiplex.Session

open Bytes Wire

variable {κ τ ω σ : Type} [Codec κ] {s₀ s u v : Session κ τ ω σ} {r : Reaction κ τ ω σ} {e : Registry.Entry Stream}

/-- The request of an exchange is held up although its window is open. -/
structure Stalls (s : Session κ τ ω σ) (e : Registry.Entry Stream) : Prop where
  registered : e ∈ s.registry.entries
  opened : e.item.state = .opened
  unsent : e.item.unsent ≠ []
  window : 0 < (Codec.window s.codec e.item.id).toInt

theorem Stalls.admitted (h : s.Stalls e) (hi : s.Intact) : e.admitted = true := by
  refine ((hi.placed e h.registered).resolve_left fun hclosed => ?_).admitted_iff.2 (Or.inl h.opened)
  exact StreamState.noConfusion (h.opened.symm.trans hclosed)

theorem Stalls.lags (h : s.Stalls e) (hi : s.Intact) : e.item.Lags s.codec := by
  refine ⟨((hi.placed e h.registered).resolve_left fun hclosed => ?_).1.trans (h.admitted hi), h.unsent, h.window⟩
  exact StreamState.noConfusion (h.opened.symm.trans hclosed)

variable [Transport τ] {may : Demand τ ω → Prop} {around : Session κ τ ω σ → Drift κ τ ω σ → Prop}

theorem loseWith_spares (hr : r.ByIoSteps may around) (fault : Fault) (s : Session κ τ ω σ) :
    (s.loseWith r fault).lost = true ∨
      (s.loseWith r fault).registry = s.registry ∧ (s.loseWith r fault).codec = s.codec := by
  rcases loseWith_cases r fault s with ⟨-, message, h⟩ | ⟨u, hu, h | ⟨reported, h⟩⟩
  · rw [h]
    exact Or.inr ⟨rfl, rfl⟩
  · rw [h]
    exact Or.inr ⟨hu.registry, hu.codec⟩
  · rw [h]
    exact Or.inl (lost_transportLost_of_byIoSteps hr reported u)

theorem flush_spares (hr : r.ByIoSteps may around) (s : Session κ τ ω σ) : (s.flush r).lost = true ∨
    (s.flush r).registry = s.registry ∧ (s.flush r).codec = (Codec.takeOutput s.codec).2 := by
  rcases flush_cases r s with ⟨-, h | ⟨message, h⟩⟩ | ⟨t, -, -, -, h | ⟨message, fault, h⟩⟩
  · rw [h]
    exact Or.inr ⟨rfl, rfl⟩
  · rw [h]
    exact Or.inr ⟨rfl, rfl⟩
  · rw [h]
    exact Or.inr ⟨rfl, rfl⟩
  · rw [h]
    exact loseWith_spares hr fault _

theorem perform_settings (r : Reaction κ τ ω σ) (hs : s.Serving) {data : Bytes} {events : List Event} {event : Event}
    (hbatch : (Codec.receive s.codec data).1 = .ok (events ++ [event])) (hevent : event.body = .remoteSettingsChanged)
    (hserving : ((s.received data).handleAll r events).Serving) : s.perform r (.bytesReceived data) =
      ((((s.received data).handleAll r events).enter (.dispatched event)).admitQueued r).flush r := by
  have hhandled : ∀ w : Session κ τ ω σ, w.handle r event = w.admitQueued r := by
    intro w
    unfold handle
    rw [hevent]
  rw [perform, bytesReceived_of_batch hs hbatch, handleAll_concat r events event hserving, hhandled]

/-- A change of the peer's settings wakes nobody. Exchanges that run stay as they are, and the requests that are held up
with an open window after the batch are those that were so before its last event. -/
theorem run_wakeup (h₀ : Created s₀) (h : FreeRun s₀ s) (hr : ∀ o news w, FreeRun w (r.run o news w)) (hs : s.Serving)
    {data : Bytes} {events : List Event} {event : Event}
    (hbatch : (Codec.receive s.codec data).1 = .ok (events ++ [event])) (hevent : event.body = .remoteSettingsChanged)
    (hu : u = (s.received data).handleAll r events) (hserving : u.Serving) (hq : u.Undisturbed r)
    (hv : v = s.perform r (.bytesReceived data)) :
    (v.lost = false → ∀ e ∈ u.registry.entries, e.admitted = true → e ∈ v.registry.entries) ∧
    (Codec.Exhausts κ → 0 < (Codec.maxFrame u.codec).toNat → u.Abstains r → ∀ e, v.Stalls e ↔
      u.Stalls e ∧ v.lost = false ∧ 0 < (Codec.window v.codec e.item.id).toInt) := by
  have hacts : r.ByIoSteps (fun _ => True) fun _ _ => True := fun o news w => (hr o news w).sheltered.ioSteps
  -- The connection is in order before the last event and when the batch is over.
  have hbefore : Execution .any nobody s₀ s := h.execution h₀.intact
  have hreceived : Execution .any nobody s₀ (s.received data) := hbefore.trans (.atomic (.receive data trivial hs))
  have hu₀ : Execution .any nobody s₀ u := hu ▸ hreceived.trans
    (execution_handleAll (.of_activity (hreceived.intact h₀.intact) hr) events)
  have hv₀ : Execution .any nobody s₀ v := hv ▸ hbefore.trans
    (execution_meet (d := .operation (.bytesReceived data)) (.of_activity (hbefore.intact h₀.intact) hr) trivial)
  have hiu := hu₀.intact h₀.intact
  have hiv := hv₀.intact h₀.intact
  have hempty : v.Emptied := hv₀.emptied fun _ => h₀.fields.2.1
  let told := u.enter (.dispatched event)
  let passed := told.admitQueued r
  have hflush : v = passed.flush r := by
    rw [hv, perform_settings r hs hbatch hevent (hu ▸ hserving), ← hu]
  have hspares : v.lost = false → v.registry = passed.registry ∧ v.codec = (Codec.takeOutput passed.codec).2 := by
    intro hl
    rw [hflush] at hl ⊢
    exact (flush_spares hacts passed).resolve_left (by rw [hl]; exact Bool.false_ne_true)
  have hconfined : Confined ∅ u passed := by
    have hdispatched : Confined ∅ u told := confined_enter u _
    exact hdispatched.trans (confined_admitQueued (hq.confined hdispatched) (hdispatched.tidy hiu.toTidy)
      (hdispatched.coherent hiu.ordered.coherent))
  have hkept : v.lost = false → ∀ e ∈ u.registry.entries, e.admitted = true → e ∈ v.registry.entries := by
    intro hl e he hadmitted
    rw [(hspares hl).1]
    rcases hconfined.others e he (Set.notMem_empty _) with ⟨hstays, -⟩ | ⟨hwaiting, -⟩
    · exact hstays
    · exact Bool.noConfusion (hadmitted.symm.trans hwaiting)
  refine ⟨hkept, fun hκ hframe hq e => ⟨fun hstalls => ?_, fun ⟨hstalled, hl, hwindow⟩ => ?_⟩⟩
  · have hl : v.lost = false := by
      refine Bool.eq_false_iff.2 fun hlost => ?_
      have hregistered := hstalls.registered
      rw [hempty hlost] at hregistered
      exact absurd hregistered List.not_mem_nil
    obtain ⟨hregistry, hcodec⟩ := hspares hl
    have hreached : Proceeds (fun _ _ => True) s₀ u := hu ▸ proceeds_batch h₀ h hr data events
    obtain ⟨via, hsends, hspends, hresuming⟩ := hreached.resuming h₀ hκ.thrifty hframe hq
    have hdispatched : Proceeds via u (u.enter (.dispatched event)) := .enter hsends u trivial
    have hproceeds : Proceeds via u passed := hdispatched.next hsends hresuming.toPoised
      fun h => proceeds_admitQueued hsends h
    -- Taking the output opened no window, so the request was held up in the same way before, and already when the
    -- settings changed.
    have hlags : e.item.Lags passed.codec := by
      refine (hstalls.lags hiv).of_spends ?_ rfl rfl rfl
      rw [hcodec]
      exact ⟨fun i => (hκ.windows i).takeOutput _, hκ.frames.takeOutput _⟩
    obtain ⟨x, hx, hid, hlagged⟩ :=
      hresuming.lagging hsends hspends hproceeds ⟨e, hregistry ▸ hstalls.registered, rfl, hlags⟩
    have hfits := (hiu.placed x hx).resolve_left (hresuming.running x hx)
    have hstays := hkept hl x hx (hfits.1.symm.trans hlagged.sent)
    obtain rfl := hiv.ordered.coherent.eq_of_id_eq hstays hstalls.registered hid
    exact ⟨⟨hx, hstalls.opened, hstalls.unsent, hlagged.window⟩, hl, hstalls.window⟩
  · exact ⟨hkept hl e hstalled.registered (hstalled.admitted hiu), hstalled.opened, hstalled.unsent, hwindow⟩

def reopened : Session Scripted.Codec Scripted.Transport Unit Unit :=
  ((fresh { defaultWindow := 0, arrival := .events [{ body := .settingsAcknowledged }] }).performAll
    ⟨fun _ _ s => s⟩ [.established (some {}), .bytesReceived [],
      .submit { url := ascii "https://example.com/", body := ascii "hello" }]).drift
    (.scripted { defaultWindow := 100, arrival := .events [{ body := .remoteSettingsChanged }] })

theorem stalls_of_entries {s : Session Scripted.Codec Scripted.Transport Unit Unit} {id : UInt32} {b : UInt8}
    {rest : Bytes} (hentries : s.registry.entries.map (fun e => (e.item.id, e.item.state, e.item.unsent)) =
      [(id, .opened, b :: rest)]) (hwindow : 0 < (Codec.window s.codec id).toInt) :
    ∃ e, s.Stalls e ∧ e.item.id = id := by
  obtain ⟨e, he, heq⟩ := List.mem_map.1 (hentries ▸ List.mem_singleton_self _)
  obtain ⟨rfl, hrest⟩ := Prod.mk.inj heq
  obtain ⟨hstate, hunsent⟩ := Prod.mk.inj hrest
  exact ⟨e, ⟨he, hstate, hunsent ▸ List.cons_ne_nil _ _, hwindow⟩, rfl⟩

/-- Settings open the window of a request that has sent its head. It stays held up. -/
theorem run_wakeup_scripted :
    ∃ (u v : Session Scripted.Codec Scripted.Transport Unit Unit)
      (r : Reaction Scripted.Codec Scripted.Transport Unit Unit) (e : Registry.Entry Stream),
      u = (reopened.received []).handleAll r [] ∧ v = reopened.perform r (.bytesReceived []) ∧ u.Stalls e ∧
        v.Stalls e := by
  let r : Reaction Scripted.Codec Scripted.Transport Unit Unit := ⟨fun _ _ s => s⟩
  let u := (reopened.received []).handleAll r []
  let v := reopened.perform r (.bytesReceived [])
  have hr : ∀ o news w, FreeRun w (r.run o news w) := fun _ _ w => .refl w
  have hrun : FreeRun (fresh { defaultWindow := 0, arrival := .events [{ body := .settingsAcknowledged }] }) reopened :=
    (Activity.performAll hr (fun _ _ => trivial) _).drift _
  have hserving : (reopened.lost = false ∧ reopened.closing = false) ∧ u.lost = false ∧ u.closing = false := by
    decide +kernel
  have hlive : u.loop.stopped = false := by decide +kernel
  have hbatch : (Codec.receive reopened.codec []).1 = .ok ([] ++ [{ body := .remoteSettingsChanged }]) := rfl
  obtain ⟨-, hstalls⟩ := run_wakeup (created_fresh _) hrun hr hserving.1 hbatch rfl (show u = _ from rfl) hserving.2
    (Or.inl hlive) (show v = _ from rfl)
  have hentries : u.registry.entries.map (fun e => (e.item.id, e.item.state, e.item.unsent)) =
      [(1, .opened, ascii "hello")] := by decide +kernel
  have hwindows : 0 < (Codec.window u.codec 1).toInt ∧ 0 < (Codec.window v.codec 1).toInt := by decide +kernel
  have hopen : v.lost = false ∧ 0 < (Codec.maxFrame u.codec).toNat := by decide +kernel
  obtain ⟨e, hbefore, hid⟩ := stalls_of_entries hentries hwindows.1
  have hafter : v.Stalls e := (hstalls exhausts_scripted hopen.2 (Or.inl hlive) e).2 ⟨hbefore, hopen.1, hid ▸ hwindows.2⟩
  exact ⟨u, v, r, e, rfl, rfl, hbefore, hafter⟩

/-- The window of an exchange is opened by a change of settings, with room for all that is left of its request, and
nothing is sent. -/
theorem wakeup_missed :
    ∃ (s₀ s s' : Session Scripted.Codec Scripted.Transport Unit Unit)
      (r : Reaction Scripted.Codec Scripted.Transport Unit Unit), Created s₀ ∧ Run s₀ s ∧ s.Serving ∧
        (Codec.receive s.codec []).1 = .ok [{ body := .remoteSettingsChanged }] ∧
        s' = s.perform r (.bytesReceived []) ∧ s'.Serving ∧ 0 < (Codec.maxFrame s'.codec).toNat ∧
        ∃ e, s'.Stalls e := by
  let r : Reaction Scripted.Codec Scripted.Transport Unit Unit := ⟨fun _ _ s => s⟩
  let s' := reopened.perform r (.bytesReceived [])
  have hrun : Run (fresh { defaultWindow := 0, arrival := .events [{ body := .settingsAcknowledged }] }) reopened :=
    (run_performAll r _ _).tail (.drift _ _)
  have hserving : (reopened.lost = false ∧ reopened.closing = false) ∧ s'.lost = false ∧ s'.closing = false := by
    decide +kernel
  have hroom : 0 < (Codec.maxFrame s'.codec).toNat ∧ 0 < (Codec.window s'.codec 1).toInt := by decide +kernel
  have hentries : s'.registry.entries.map (fun e => (e.item.id, e.item.state, e.item.unsent)) =
      [(1, .opened, ascii "hello")] := by decide +kernel
  obtain ⟨e, hstalls, -⟩ := stalls_of_entries hentries hroom.2
  exact ⟨_, reopened, s', r, created_fresh _, hrun, hserving.1, rfl, rfl, hserving.2, hroom.1, e, hstalls⟩

end Multiplex.Session

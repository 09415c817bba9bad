import Mathlib.Data.List.TakeWhile
import Multiplex.Proofs.Numeral
import Multiplex.Url

/-! Which texts are addresses. A grammar says how a text is put together from its parts, and the reader accepts exactly
the texts of the grammar. A second reader goes through a text by positions and may look at no position outside of it; it
never fails, and finds what the first one finds. -/
namespace Multiplex

namespace Bytes

variable {pat s p q : Bytes} {b : UInt8}

theorem splitFirst_eq_some_iff : splitFirst pat s = some (p, q) ↔
    s = p ++ pat ++ q ∧ ∀ p' q', s = p' ++ pat ++ q' → p.length ≤ p'.length := by
  induction s generalizing p q with
  | nil =>
    by_cases hpat : pat = []
    · simp [splitFirst, hpat, eq_comm]
      exact fun hp _ => hp
    · simp [splitFirst, hpat]
  | cons x s ih =>
    by_cases hfirst : pat.isPrefixOf (x :: s) = true
    · obtain ⟨t, ht⟩ := List.isPrefixOf_iff_prefix.1 hfirst
      rw [splitFirst, if_pos hfirst, Option.some.injEq, Prod.mk.injEq, ← ht, List.drop_left]
      constructor
      · rintro ⟨rfl, rfl⟩
        simp
      · rintro ⟨heq, hleast⟩
        have hp : p = [] := List.length_eq_zero_iff.1 (Nat.le_zero.1 (hleast [] t rfl))
        subst hp
        exact ⟨rfl, List.append_cancel_left heq⟩
    · have hne : ∀ {p' q' : Bytes}, x :: s = p' ++ pat ++ q' → ∃ p'', p' = x :: p'' ∧ s = p'' ++ pat ++ q' := by
        intro p' q' heq
        cases p' with
        | nil => exact absurd (List.isPrefixOf_iff_prefix.2 ⟨q', heq.symm⟩) hfirst
        | cons y p'' =>
          obtain ⟨rfl, hs⟩ := List.cons.inj heq
          exact ⟨p'', rfl, hs⟩
      rw [splitFirst, if_neg hfirst, Option.map_eq_some_iff]
      constructor
      · rintro ⟨c, hc, heq⟩
        obtain ⟨rfl, rfl⟩ := Prod.mk.inj heq
        obtain ⟨hs, hleast⟩ := ih.1 hc
        refine ⟨by rw [hs]; rfl, fun p' q' hp' => ?_⟩
        obtain ⟨p'', rfl, hs'⟩ := hne hp'
        exact Nat.succ_le_succ (hleast p'' q' hs')
      · rintro ⟨heq, hleast⟩
        obtain ⟨p'', rfl, hs⟩ := hne heq
        refine ⟨(p'', q), ih.2 ⟨hs, fun p' q' hp' => ?_⟩, rfl⟩
        exact Nat.le_of_succ_le_succ (hleast (x :: p') q' (by rw [hp']; rfl))

theorem length_le_of_notMem {p' q' : Bytes} (hb : b ∉ p) (h : p ++ b :: q = p' ++ b :: q') : p.length ≤ p'.length := by
  rcases List.append_eq_append_iff.1 h with ⟨r, rfl, -⟩ | ⟨r, rfl, hr⟩
  · simp
  · cases r with
    | nil => simp
    | cons y r =>
      obtain ⟨rfl, -⟩ := List.cons.inj hr
      simp at hb

theorem splitFirst_byte_eq_some_iff : splitFirst [b] s = some (p, q) ↔ s = p ++ b :: q ∧ b ∉ p := by
  rw [splitFirst_eq_some_iff]
  constructor
  · rintro ⟨rfl, hleast⟩
    refine ⟨by simp, fun hb => ?_⟩
    obtain ⟨p', r, rfl⟩ := List.append_of_mem hb
    have hshort := hleast p' (r ++ b :: q) (by simp)
    rw [List.length_append, List.length_cons] at hshort
    omega
  · rintro ⟨rfl, hb⟩
    refine ⟨by simp, fun p' q' heq => ?_⟩
    rw [List.append_assoc, List.singleton_append] at heq
    exact length_le_of_notMem hb heq

theorem takeWhile_dropWhile_iff {f : UInt8 → Bool} :
    s = p ++ q ∧ (∀ b ∈ p, f b = true) ∧ (∀ b, q.head? = some b → f b = false) ↔
      s.takeWhile f = p ∧ s.dropWhile f = q := by
  constructor
  · rintro ⟨rfl, hp, hq⟩
    have hq' : q.takeWhile f = [] ∧ q.dropWhile f = q := by
      cases q with
      | nil => simp
      | cons b q => simp [hq b rfl]
    rw [List.takeWhile_append_of_pos hp, List.dropWhile_append_of_pos hp, hq'.1, hq'.2]
    simp
  · rintro ⟨rfl, rfl⟩
    refine ⟨List.takeWhile_append_dropWhile.symm, fun b hb => List.mem_takeWhile_imp hb, fun b hb => ?_⟩
    have hhead := List.head?_dropWhile_not f s
    rw [hb] at hhead
    simpa using hhead

end Bytes

namespace Url

open Bytes

inductive HostPort : Bytes → Bytes → Bytes → Prop
  | bracketed {host : Bytes} (h : 93 ∉ host) : HostPort (ascii "[" ++ host ++ ascii "]") host []
  | bracketedPort {host port : Bytes} (h : 93 ∉ host) :
      HostPort (ascii "[" ++ host ++ ascii "]:" ++ port) host port
  | plain {host : Bytes} (hopen : host.head? ≠ some 91) (h : 58 ∉ host) : HostPort host host []
  | plainPort {host port : Bytes} (hopen : (host ++ ascii ":" ++ port).head? ≠ some 91) (h : 58 ∉ port) :
      HostPort (host ++ ascii ":" ++ port) host port

structure Parts where
  scheme : Bytes
  /-- The port that the scheme implies. -/
  implied : UInt16
  authority : Bytes
  /-- The authority without the userinfo. -/
  site : Bytes
  host : Bytes
  port : Bytes
  tail : Bytes

structure Spelling (text : Bytes) (p : Parts) : Prop where
  whole : text = p.scheme ++ ascii "://" ++ (p.authority ++ p.tail)
  first : ∀ before after, text = before ++ ascii "://" ++ after → p.scheme.length ≤ before.length
  spoken : (lower p.scheme, p.implied) ∈ [(ascii "http", (80 : UInt16)), (ascii "https", 443)]
  inside : ∀ b ∈ p.authority, b ∉ ascii "/?#"
  outside : ∀ b, p.tail.head? = some b → b ∈ ascii "/?#"
  userinfo : p.authority = p.site ∨ ∃ userinfo, p.authority = userinfo ++ ascii "@" ++ p.site
  bare : 64 ∉ p.site
  hostPort : HostPort p.site p.host p.port
  named : p.host ≠ []
  numbered : p.port = [] ∨ (p.port.length ≤ 5 ∧ (∀ b ∈ p.port, isDigit b = true) ∧
    1 ≤ Decimal.value p.port ∧ Decimal.value p.port ≤ 65535)

/-- What stands before the first number sign, with a slash in front. -/
def askedFor (tail : Bytes) : Bytes :=
  let path := tail.takeWhile (· != 35)
  if path.head? = some 47 then path else ascii "/" ++ path

def Parts.url (p : Parts) : Url where
  scheme := lower p.scheme
  host := lower p.host
  port := if p.port = [] then p.implied else UInt16.ofNat (Decimal.value p.port)
  path := askedFor p.tail

/-! Each part is read by itself. -/

theorem endsAuthority_iff {b : UInt8} : endsAuthority b = true ↔ b ∈ ascii "/?#" := by
  simp [endsAuthority, ascii, or_assoc]

theorem pathOf_eq_askedFor (tail : Bytes) : pathOf tail = askedFor tail := by
  unfold pathOf askedFor
  cases tail.takeWhile (· != 35) with
  | nil => rfl
  | cons b path =>
    by_cases hb : b = 47
    · simp [hb]
    · simp [hb, ascii]

theorem defaultPort_eq_iff {scheme : Bytes} {port : UInt16} :
    defaultPort scheme = port ∧ port ≠ 0 ↔ (scheme, port) ∈ [(ascii "http", (80 : UInt16)), (ascii "https", 443)] := by
  have hne : ascii "http" ≠ ascii "https" := by decide
  unfold defaultPort
  by_cases hs : scheme = ascii "https"
  · simp [hs, hne.symm]
    grind
  · by_cases hh : scheme = ascii "http"
    · simp [hh, hne]
      grind
    · simp [hs, hh]
      grind

theorem dropUserinfo_eq_iff {authority site : Bytes} : dropUserinfo authority = site ↔
    (authority = site ∨ ∃ userinfo, authority = userinfo ++ ascii "@" ++ site) ∧ 64 ∉ site := by
  unfold dropUserinfo
  cases hsplit : splitLast 64 authority with
  | none =>
    have hno : 64 ∉ authority := splitLast_eq_none_iff.1 hsplit
    constructor
    · rintro rfl
      exact ⟨.inl rfl, hno⟩
    · rintro ⟨rfl | ⟨userinfo, rfl⟩, -⟩
      · rfl
      · simp [ascii] at hno
  | some c =>
    obtain ⟨userinfo, rest⟩ := c
    obtain ⟨rfl, hrest⟩ := splitLast_eq_some_iff.1 hsplit
    constructor
    · rintro rfl
      exact ⟨.inr ⟨userinfo, by simp [ascii]⟩, hrest⟩
    · rintro ⟨rfl | ⟨userinfo', heq⟩, hsite⟩
      · simp at hsite
      · have heq' : splitLast 64 (userinfo ++ 64 :: rest) = some (userinfo', site) := by
          rw [heq, List.append_assoc]
          exact splitLast_append_cons userinfo' hsite
        rw [hsplit] at heq'
        exact congrArg Prod.snd (Option.some.inj heq')

theorem splitAuthority_bracketed {rest host port : Bytes} :
    splitAuthority (91 :: rest) = .ok (host, port) ↔ 93 ∉ host ∧ ((rest = host ++ [93] ∧ port = []) ∨
      rest = host ++ 93 :: 58 :: port) := by
  cases hsplit : splitFirst [93] rest with
  | none =>
    have hno : ∀ behind, 93 ∉ host → rest ≠ host ++ 93 :: behind := by
      intro behind hhost heq
      rw [splitFirst_byte_eq_some_iff.2 ⟨heq, hhost⟩] at hsplit
      cases hsplit
    simp only [splitAuthority, hsplit, ↓reduceIte, reduceCtorEq, false_iff]
    rintro ⟨hhost, ⟨heq, -⟩ | heq⟩
    · exact hno [] hhost heq
    · exact hno _ hhost heq
  | some c =>
    obtain ⟨host', behind⟩ := c
    obtain ⟨rfl, hhost'⟩ := splitFirst_byte_eq_some_iff.1 hsplit
    have hsame : ∀ {behind'}, 93 ∉ host → host' ++ 93 :: behind = host ++ 93 :: behind' →
        host' = host ∧ behind = behind' := by
      intro behind' hhost heq
      rw [heq, splitFirst_byte_eq_some_iff.2 ⟨rfl, hhost⟩] at hsplit
      simpa [eq_comm] using hsplit
    cases behind with
    | nil =>
      simp only [splitAuthority, hsplit, ↓reduceIte, Except.ok.injEq, Prod.mk.injEq]
      constructor
      · rintro ⟨rfl, rfl⟩
        exact ⟨hhost', .inl ⟨rfl, rfl⟩⟩
      · rintro ⟨hhost, ⟨heq, rfl⟩ | heq⟩
        · exact ⟨(hsame hhost heq).1, rfl⟩
        · exact nomatch (hsame hhost heq).2
    | cons c behind =>
      by_cases hc : c = 58
      · subst hc
        simp only [splitAuthority, hsplit, ↓reduceIte, Except.ok.injEq, Prod.mk.injEq]
        constructor
        · rintro ⟨rfl, rfl⟩
          exact ⟨hhost', .inr rfl⟩
        · rintro ⟨hhost, ⟨heq, -⟩ | heq⟩
          · exact nomatch (hsame hhost heq).2
          · obtain ⟨rfl, hbehind⟩ := hsame hhost heq
            exact ⟨rfl, (List.cons.inj hbehind).2⟩
      · simp only [splitAuthority, hsplit, hc, ↓reduceIte, reduceCtorEq, false_iff]
        rintro ⟨hhost, ⟨heq, -⟩ | heq⟩
        · exact nomatch (hsame hhost heq).2
        · exact hc (List.cons.inj (hsame hhost heq).2).1

theorem splitAuthority_plain {site host port : Bytes} (hopen : site.head? ≠ some 91) (hsite : site ≠ []) :
    splitAuthority site = .ok (host, port) ↔
      (site = host ++ 58 :: port ∧ 58 ∉ port) ∨ (site = host ∧ port = [] ∧ 58 ∉ host) := by
  obtain ⟨b, rest, rfl⟩ := List.exists_cons_of_ne_nil hsite
  have hb : b ≠ 91 := by simpa using hopen
  cases hsplit : splitLast 58 (b :: rest) with
  | none =>
    have hno : 58 ∉ b :: rest := splitLast_eq_none_iff.1 hsplit
    simp only [splitAuthority, hb, hsplit, ↓reduceIte, Except.ok.injEq, Prod.mk.injEq]
    constructor
    · rintro ⟨rfl, rfl⟩
      exact .inr ⟨rfl, rfl, hno⟩
    · rintro (⟨heq, -⟩ | ⟨rfl, rfl, -⟩)
      · rw [heq] at hno
        simp at hno
      · exact ⟨rfl, rfl⟩
  | some parts =>
    simp only [splitAuthority, hb, hsplit, ↓reduceIte, Except.ok.injEq]
    constructor
    · rintro rfl
      exact .inl (splitLast_eq_some_iff.1 hsplit)
    · rintro (h | ⟨rfl, -, hno⟩)
      · rw [splitLast_eq_some_iff.2 h] at hsplit
        exact (Option.some.inj hsplit).symm
      · rw [splitLast_eq_none_iff.2 hno] at hsplit
        cases hsplit

theorem splitAuthority_eq_ok_iff {site host port : Bytes} :
    splitAuthority site = .ok (host, port) ∧ host ≠ [] ↔ HostPort site host port ∧ host ≠ [] := by
  refine and_congr_left fun hhost => ?_
  constructor
  · intro h
    by_cases hopen : site.head? = some 91
    · obtain ⟨rest, rfl⟩ := List.head?_eq_some_iff.1 hopen
      rcases splitAuthority_bracketed.1 h with ⟨hb, ⟨rfl, rfl⟩ | rfl⟩
      · exact .bracketed hb
      · have hsplit : HostPort (ascii "[" ++ host ++ ascii "]:" ++ port) host port := .bracketedPort hb
        simpa [ascii] using hsplit
    · have hsite : site ≠ [] := by
        rintro rfl
        cases h
      rcases (splitAuthority_plain hopen hsite).1 h with ⟨rfl, hport⟩ | ⟨rfl, rfl, hno⟩
      · have hsplit : HostPort (host ++ ascii ":" ++ port) host port := .plainPort (by simpa [ascii] using hopen) hport
        simpa [ascii] using hsplit
      · exact .plain hopen hno
  · intro h
    cases h with
    | bracketed hb => exact splitAuthority_bracketed.2 ⟨hb, .inl ⟨rfl, rfl⟩⟩
    | bracketedPort hb => exact splitAuthority_bracketed.2 ⟨hb, .inr (by simp [ascii])⟩
    | plain hopen hno => exact (splitAuthority_plain hopen hhost).2 (.inr ⟨rfl, rfl, hno⟩)
    | plainPort hopen hport => exact (splitAuthority_plain hopen (by simp [ascii])).2 (.inl ⟨by simp [ascii], hport⟩)

theorem readPort_eq_some_iff {text : Bytes} {port : UInt16} : readPort text = some port ↔
    text ≠ [] ∧ (text.length ≤ 5 ∧ (∀ b ∈ text, isDigit b = true) ∧ 1 ≤ Decimal.value text ∧
      Decimal.value text ≤ 65535) ∧ port = UInt16.ofNat (Decimal.value text) := by
  have hread : ∀ n, Decimal.readUpTo 65535 text = some n ↔
      text ≠ [] ∧ (∀ b ∈ text, isDigit b = true) ∧ Decimal.value text = n ∧ n ≤ 65535 :=
    fun _ => Decimal.readUpTo_eq_some_iff (by decide)
  unfold readPort
  by_cases hlength : text.length ≤ 5
  · rw [if_pos hlength]
    cases hr : Decimal.readUpTo 65535 text with
    | none =>
      refine iff_of_false (by simp) ?_
      rintro ⟨htext, ⟨-, hdigits, -, hvalue⟩, -⟩
      rw [(hread _).2 ⟨htext, hdigits, rfl, hvalue⟩] at hr
      cases hr
    | some n =>
      obtain ⟨htext, hdigits, rfl, hvalue⟩ := (hread n).1 hr
      split
      next h =>
        refine iff_of_false (by simp) ?_
        have hzero : Decimal.value text = 0 := Option.some.inj h
        omega
      next n hn h =>
        obtain rfl := Option.some.inj h
        have hpos : 1 ≤ Decimal.value text := Nat.one_le_iff_ne_zero.2 hn
        rw [Option.some.injEq]
        exact ⟨fun heq => ⟨htext, ⟨hlength, hdigits, hpos, hvalue⟩, heq.symm⟩, fun heq => heq.2.2.symm⟩
      next h => cases h
  · simp [hlength]

theorem port_eq_iff {text : Bytes} {implied port : UInt16} :
    (text = [] ∧ port = implied ∨ text ≠ [] ∧ readPort text = some port) ↔
      (text = [] ∨ (text.length ≤ 5 ∧ (∀ b ∈ text, isDigit b = true) ∧ 1 ≤ Decimal.value text ∧
        Decimal.value text ≤ 65535)) ∧ port = if text = [] then implied else UInt16.ofNat (Decimal.value text) := by
  rw [readPort_eq_some_iff]
  by_cases ht : text = []
  · simp [ht]
  · simp only [ht, false_and, false_or, ne_eq, not_false_eq_true, true_and, ↓reduceIte]

structure Found (text rest : Bytes) (p : Parts) : Prop where
  cut : splitFirst (ascii "://") text = some (p.scheme, rest)
  spoken : defaultPort (lower p.scheme) = p.implied ∧ p.implied ≠ 0
  ends : rest.takeWhile (fun b => !endsAuthority b) = p.authority ∧ rest.dropWhile (fun b => !endsAuthority b) = p.tail
  bare : dropUserinfo p.authority = p.site
  split : splitAuthority p.site = .ok (p.host, p.port) ∧ p.host ≠ []
  numbered : p.port = [] ∨ (p.port.length ≤ 5 ∧ (∀ b ∈ p.port, isDigit b = true) ∧
    1 ≤ Decimal.value p.port ∧ Decimal.value p.port ≤ 65535)

theorem spelling_iff_found {text : Bytes} {p : Parts} : Spelling text p ↔ ∃ rest, Found text rest p := by
  have hends : ∀ b, (!endsAuthority b) = true ↔ b ∉ ascii "/?#" := by
    intro b
    rw [← endsAuthority_iff, Bool.not_eq_true', Bool.not_eq_true]
  have hends' : ∀ b, (!endsAuthority b) = false ↔ b ∈ ascii "/?#" := by
    intro b
    rw [← endsAuthority_iff, Bool.not_eq_false']
  constructor
  · intro h
    refine ⟨p.authority ++ p.tail, ?_⟩
    exact {
      cut := splitFirst_eq_some_iff.2 ⟨h.whole, h.first⟩
      spoken := defaultPort_eq_iff.2 h.spoken
      ends := takeWhile_dropWhile_iff.1 ⟨rfl, fun b hb => (hends b).2 (h.inside b hb),
        fun b hb => (hends' b).2 (h.outside b hb)⟩
      bare := dropUserinfo_eq_iff.2 ⟨h.userinfo, h.bare⟩
      split := splitAuthority_eq_ok_iff.2 ⟨h.hostPort, h.named⟩
      numbered := h.numbered }
  · rintro ⟨rest, h⟩
    obtain ⟨hwhole, hfirst⟩ := splitFirst_eq_some_iff.1 h.cut
    obtain ⟨rfl, hinside, houtside⟩ := takeWhile_dropWhile_iff.2 h.ends
    obtain ⟨huserinfo, hbare⟩ := dropUserinfo_eq_iff.1 h.bare
    obtain ⟨hhostPort, hnamed⟩ := splitAuthority_eq_ok_iff.1 h.split
    exact {
      whole := hwhole
      first := hfirst
      spoken := defaultPort_eq_iff.1 h.spoken
      inside := fun b hb => (hends b).1 (hinside b hb)
      outside := fun b hb => (hends' b).1 (houtside b hb)
      userinfo := huserinfo
      bare := hbare
      hostPort := hhostPort
      named := hnamed
      numbered := h.numbered }

theorem Found.scheme_ne_nil {text rest : Bytes} {p : Parts} (h : Found text rest p) : p.scheme ≠ [] := by
  intro hnil
  refine h.spoken.2 ?_
  rw [← h.spoken.1, hnil]
  decide

theorem read_of_found {text rest : Bytes} {p : Parts} (h : Found text rest p) : read text = .ok p.url := by
  obtain ⟨b, scheme, hscheme⟩ := List.exists_cons_of_ne_nil h.scheme_ne_nil
  obtain ⟨hauthority, htail⟩ := h.ends
  have hspoken : defaultPort (lower (b :: scheme)) = p.implied := hscheme ▸ h.spoken.1
  have hurl : p.url = ⟨lower (b :: scheme), lower p.host, p.url.port, pathOf p.tail⟩ := by
    rw [pathOf_eq_askedFor, ← hscheme]
    rfl
  simp only [read, h.cut, hscheme, hspoken, if_neg h.spoken.2, hauthority, h.bare, h.split.1, if_neg h.split.2, htail]
  rcases port_eq_iff.2 ⟨h.numbered, show p.url.port = _ from rfl⟩ with ⟨hport, himplied⟩ | ⟨hport, hread⟩
  · rw [if_pos hport, hurl, himplied]
  · rw [if_neg hport, hread, hurl]

theorem found_of_read {text : Bytes} {u : Url} (h : read text = .ok u) : ∃ rest p, Found text rest p ∧ p.url = u := by
  unfold read at h
  split at h
  · cases h
  · cases h
  · rename_i b scheme rest hcut
    dsimp only at h
    split at h
    · cases h
    · rename_i hspoken
      split at h
      · cases h
      · rename_i host port hsplit
        split at h
        · cases h
        · rename_i hhost
          have hport : ∃ n, (port = [] ∧ n = defaultPort (lower (b :: scheme)) ∨ port ≠ [] ∧ readPort port = some n) ∧
              u = ⟨lower (b :: scheme), lower host, n, pathOf (rest.dropWhile fun b => !endsAuthority b)⟩ := by
            split at h
            · rename_i hport
              exact ⟨_, .inl ⟨hport, rfl⟩, (Except.ok.inj h).symm⟩
            · rename_i hport
              split at h
              · cases h
              · rename_i n hread
                exact ⟨n, .inr ⟨hport, hread⟩, (Except.ok.inj h).symm⟩
          obtain ⟨n, hn, rfl⟩ := hport
          obtain ⟨hnumbered, rfl⟩ := port_eq_iff.1 hn
          let authority := rest.takeWhile fun b => !endsAuthority b
          let tail := rest.dropWhile fun b => !endsAuthority b
          refine ⟨rest, ⟨b :: scheme, defaultPort (lower (b :: scheme)), authority, dropUserinfo authority, host, port,
            tail⟩, ?_, ?_⟩
          · exact {
              cut := hcut
              spoken := ⟨rfl, hspoken⟩
              ends := ⟨rfl, rfl⟩
              bare := rfl
              split := ⟨hsplit, hhost⟩
              numbered := hnumbered }
          · rw [pathOf_eq_askedFor]
            rfl

/-- Exactly the texts of the grammar are addresses. -/
theorem read_eq_ok_iff {text : Bytes} {u : Url} : read text = .ok u ↔ ∃ p, Spelling text p ∧ p.url = u := by
  constructor
  · intro h
    obtain ⟨rest, p, hfound, hurl⟩ := found_of_read h
    exact ⟨p, spelling_iff_found.2 ⟨rest, hfound⟩, hurl⟩
  · rintro ⟨p, hspelling, rfl⟩
    obtain ⟨rest, hfound⟩ := spelling_iff_found.1 hspelling
    exact read_of_found hfound

end Url

end Multiplex

import Multiplex.Proofs.Roundtrip

/-! What an authority text names. Whoever knows the port that the scheme implies gets host and port back from the text,
whatever bytes the host has: digits behind the last colon are a port that was written, and only a host with a colon
stands in brackets. So under one scheme no two origins have the same authority text. -/
namespace Multiplex.Url

open Bytes

def framed (host : Bytes) : Bytes := if 58 ∈ host then ascii "[" ++ host ++ ascii "]" else host

def unframed (site : Bytes) : Bytes := if 58 ∈ site then site.tail.dropLast else site

def named (implied : UInt16) (text : Bytes) : Bytes × UInt16 :=
  match splitLast 58 text with
  | none => (text, implied)
  | some (site, port) =>
    if port.all isDigit then (unframed site, UInt16.ofNat (Decimal.value port)) else (unframed text, implied)

variable {u : Url}

theorem mem_framed_iff {host : Bytes} : 58 ∈ framed host ↔ 58 ∈ host := by
  unfold framed
  split <;> simp [ascii, *]

@[simp] theorem unframed_framed (host : Bytes) : unframed (framed host) = host := by
  unfold unframed
  by_cases hcolon : 58 ∈ host
  · rw [if_pos (mem_framed_iff.2 hcolon), framed, if_pos hcolon]
    exact List.dropLast_concat
  · rw [if_neg (mem_framed_iff.not.2 hcolon), framed, if_neg hcolon]

/-- Behind the last colon of a host in brackets the closing bracket follows, and that is no digit. -/
theorem splitLast_framed {host : Bytes} (hcolon : 58 ∈ host) :
    ∃ site rest, splitLast 58 (framed host) = some (site, rest) ∧ rest.all isDigit = false := by
  cases hsplit : splitLast 58 host with
  | none => exact absurd hcolon (splitLast_eq_none_iff.1 hsplit)
  | some c =>
    obtain ⟨before, behind⟩ := c
    obtain ⟨rfl, hbehind⟩ := splitLast_eq_some_iff.1 hsplit
    refine ⟨91 :: before, behind ++ [93], splitLast_eq_some_iff.2 ⟨?_, ?_⟩, ?_⟩
    · simp [framed, ascii]
    · simp [hbehind]
    · simp [show isDigit 93 = false from rfl]

theorem named_authority (u : Url) : named (defaultPort u.scheme) u.authority = (u.host, u.port) := by
  have hauthority : u.authority = framed u.host ++ if u.portText = [] then [] else ascii ":" ++ u.portText :=
    authority_eq u
  have hport : 58 ∉ u.portText := notMem_portText (by decide)
  unfold named
  rw [hauthority]
  by_cases himplied : u.port = defaultPort u.scheme
  · have hnone : u.portText = [] := if_pos himplied
    rw [if_pos hnone, List.append_nil, ← himplied]
    by_cases hcolon : 58 ∈ u.host
    · obtain ⟨site, rest, hsplit, hrest⟩ := splitLast_framed hcolon
      simp [hsplit, hrest]
    · rw [splitLast_eq_none_iff.2 (mem_framed_iff.not.2 hcolon)]
      simp [framed, hcolon]
  · have hwritten : u.portText = Decimal.write u.port.toNat := if_neg himplied
    have hsome : u.portText ≠ [] := hwritten ▸ Decimal.write_ne_nil _
    have hdigits : u.portText.all isDigit = true := List.all_eq_true.2 fun _ => isDigit_of_mem_portText
    have hsplit : splitLast 58 (framed u.host ++ (ascii ":" ++ u.portText)) = some (framed u.host, u.portText) :=
      splitLast_append_cons (framed u.host) hport
    rw [if_neg hsome, hsplit]
    dsimp only
    rw [if_pos hdigits, unframed_framed, hwritten, Decimal.value_write, UInt16.ofNat_toNat]

/-- Under one scheme the authority text tells host and port, so an origin is its scheme and its authority text. -/
theorem sameOrigin_iff_authority (a b : Url) :
    (a.scheme = b.scheme → (a.authority = b.authority ↔ a.host = b.host ∧ a.port = b.port)) ∧
    (a.sameOrigin b = true ↔ a.scheme = b.scheme ∧ a.authority = b.authority) := by
  have htells : a.scheme = b.scheme → (a.authority = b.authority ↔ a.host = b.host ∧ a.port = b.port) := by
    intro hscheme
    constructor
    · intro hauthority
      have hnamed := named_authority a
      rw [hscheme, hauthority, named_authority b] at hnamed
      obtain ⟨hhost, hport⟩ := Prod.mk.inj hnamed
      exact ⟨hhost.symm, hport.symm⟩
    · rintro ⟨hhost, hport⟩
      rw [authority, authority, hscheme, hhost, hport]
  refine ⟨htells, ?_⟩
  rw [sameOrigin_iff]
  exact and_congr_right fun hscheme => (htells hscheme).symm

/-- Hosts that look like another host with its port or its brackets, under a scheme that is not spoken here. -/
theorem sameOrigin_iff_authority_gopher :
    let plain : Url := ⟨ascii "gopher", ascii "x", 80, []⟩
    let colon : Url := ⟨ascii "gopher", ascii "x:80", 0, []⟩
    let framed : Url := ⟨ascii "gopher", ascii "[x:80]", 0, []⟩
    (plain.authority = ascii "x:80" ∧ colon.authority = ascii "[x:80]" ∧ framed.authority = ascii "[[x:80]]") ∧
      plain.scheme = colon.scheme ∧
      (plain.authority = colon.authority ↔ plain.host = colon.host ∧ plain.port = colon.port) ∧
      (colon.sameOrigin framed = true ↔ colon.scheme = framed.scheme ∧ colon.authority = framed.authority) := by
  refine ⟨by decide +kernel, rfl, ?_, ?_⟩
  · exact (sameOrigin_iff_authority _ _).1 rfl
  · exact (sameOrigin_iff_authority _ _).2

/-- Without its scheme an authority text names no origin: the ports that two schemes imply are both left out. -/
example : authority ⟨ascii "http", ascii "x", 80, []⟩ = authority ⟨ascii "https", ascii "x", 443, []⟩ := by decide

end Multiplex.Url

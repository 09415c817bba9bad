import Multiplex.Proofs.Address

/-! Writing an address and reading it back. The authority text puts a host in brackets if it has a colon, and the reader
takes a host to be in brackets if it begins with one. The two agree on every host but those with a bracket of their own
in the wrong place: then what is written is no address at all. -/
namespace Multiplex.Url

open Bytes

def text (u : Url) : Bytes := u.scheme ++ ascii "://" ++ (u.authority ++ u.path)

/-- A host that can be told from the brackets around it: with a colon it has no closing bracket, and without one it
does not begin with an opening bracket. -/
def Tellable (host : Bytes) : Prop := if 58 ∈ host then 93 ∉ host else host.head? ≠ some 91

instance (host : Bytes) : Decidable (Tellable host) := by
  unfold Tellable
  infer_instance

/-- What every address that was read has in common. -/
structure Regular (u : Url) : Prop where
  spoken : u.scheme = ascii "http" ∨ u.scheme = ascii "https"
  named : u.host ≠ []
  lowered : lower u.host = u.host
  clean : ∀ b ∈ u.host, b ∉ ascii "/?#@"
  numbered : u.port ≠ 0
  rooted : ∃ path, u.path = 47 :: path ∧ 35 ∉ path
  opened : u.host.head? = some 91 → 93 ∉ u.host

def marks : Bytes := ascii "/?#@[]:"

def portText (u : Url) : Bytes := if u.port = defaultPort u.scheme then [] else Decimal.write u.port.toNat

variable {u : Url} {t : Bytes}

/-! What is read is regular. -/

theorem mem_marks {b : UInt8} (h : b ∈ ascii "/?#@") : b ∈ marks := by
  simp [marks, ascii] at h ⊢
  tauto

theorem lowerByte_eq_iff {b mark : UInt8} (hmark : mark ∈ marks) : lowerByte b = mark ↔ b = mark := by
  have hall : ∀ mark ∈ marks, ∀ n : Fin 256, lowerByte (UInt8.ofFin n) = mark ↔ UInt8.ofFin n = mark := by
    decide +kernel
  exact hall mark hmark b.toFin

theorem mem_lower_iff {s : Bytes} {mark : UInt8} (hmark : mark ∈ marks) : mark ∈ lower s ↔ mark ∈ s := by
  simp [lower, lowerByte_eq_iff hmark]

theorem head?_lower_iff {s : Bytes} {mark : UInt8} (hmark : mark ∈ marks) :
    (lower s).head? = some mark ↔ s.head? = some mark := by
  simp [lower, lowerByte_eq_iff hmark]

theorem HostPort.host_subset {site host port : Bytes} (h : HostPort site host port) : host ⊆ site := by
  cases h <;> simp

theorem HostPort.opened {site host port : Bytes} (h : HostPort site host port) (hhost : host ≠ [])
    (hopen : host.head? = some 91) : 93 ∉ host := by
  cases h with
  | bracketed hb => exact hb
  | bracketedPort hb => exact hb
  | plain hplain => exact absurd hopen hplain
  | plainPort hplain =>
    obtain ⟨rest, rfl⟩ := List.head?_eq_some_iff.1 hopen
    simp at hplain

theorem Spelling.regular {p : Parts} (h : Spelling t p) : p.url.Regular where
  spoken := by
    have hspoken := h.spoken
    simp at hspoken
    exact hspoken.imp And.left And.left
  named := by simpa [Parts.url, lower] using h.named
  lowered := lower_lower p.host
  clean := by
    intro b hb hmark
    have hsite : b ∈ p.site := h.hostPort.host_subset ((mem_lower_iff (mem_marks hmark)).1 hb)
    have hauthority : b ∈ p.authority := by
      rcases h.userinfo with heq | ⟨userinfo, heq⟩
      · exact heq ▸ hsite
      · rw [heq]
        exact List.mem_append_right _ hsite
    have hinside := h.inside b hauthority
    have hbare : b ≠ 64 := fun heq => h.bare (heq ▸ hsite)
    simp [ascii] at hmark hinside
    grind
  numbered := by
    have hspoken := h.spoken
    intro hzero
    rw [show p.url.port = if p.port = [] then p.implied else UInt16.ofNat (Decimal.value p.port) from rfl] at hzero
    split at hzero
    · simp [hzero] at hspoken
    · rename_i hport
      have hvalue := h.numbered.resolve_left hport
      have hnat := congrArg UInt16.toNat hzero
      simp only [UInt16.toNat_ofNat', UInt16.toNat_zero] at hnat
      omega
  rooted := by
    have hpath := pathOf_eq p.tail
    rwa [pathOf_eq_askedFor] at hpath
  opened := by
    intro hopen
    rw [show p.url.host = lower p.host from rfl, mem_lower_iff (by decide)]
    exact h.hostPort.opened h.named ((head?_lower_iff (by decide)).1 hopen)

/-! What is written is taken apart again. -/

theorem Regular.scheme_clean (h : Regular u) : 58 ∉ u.scheme ∧ lower u.scheme = u.scheme ∧
    (u.scheme, defaultPort u.scheme) ∈ [(ascii "http", (80 : UInt16)), (ascii "https", 443)] := by
  rcases h.spoken with hs | hs <;> rw [hs] <;> decide

theorem isDigit_of_mem_portText {b : UInt8} (h : b ∈ u.portText) : isDigit b = true := by
  unfold portText at h
  split at h
  · cases h
  · exact Decimal.isDigit_of_mem_write h

theorem notMem_portText {mark : UInt8} (hmark : mark ∈ marks) : mark ∉ u.portText := by
  intro hmem
  have hdigit := isDigit_of_mem_portText hmem
  have hall : ∀ mark ∈ marks, isDigit mark = false := by decide +kernel
  rw [hall mark hmark] at hdigit
  cases hdigit

/-- The authority text is the host, in brackets if it has a colon, and then the port behind a colon. -/
theorem authority_eq (u : Url) : u.authority = (if 58 ∈ u.host then ascii "[" ++ u.host ++ ascii "]" else u.host) ++
    if u.portText = [] then [] else ascii ":" ++ u.portText := by
  unfold authority portText
  by_cases hport : u.port = defaultPort u.scheme
  · by_cases hcolon : 58 ∈ u.host <;> simp [hport, hcolon, ascii]
  · by_cases hcolon : 58 ∈ u.host <;> simp [hport, hcolon, ascii, Decimal.write_ne_nil]

theorem mem_authority {b : UInt8} (h : b ∈ u.authority) : b ∈ u.host ∨ b ∈ ascii "[]:" ∨ b ∈ u.portText := by
  rw [authority_eq] at h
  simp [ascii]
  split at h <;> split at h <;> simp [ascii] at h <;> tauto

theorem Regular.notMem_authority (h : Regular u) {mark : UInt8} (hmark : mark ∈ ascii "/?#@") : mark ∉ u.authority := by
  intro hmem
  rcases mem_authority hmem with hhost | hframe | hport
  · exact h.clean mark hhost hmark
  · have hnone : ∀ mark ∈ ascii "/?#@", mark ∉ ascii "[]:" := by decide +kernel
    exact hnone mark hmark hframe
  · exact notMem_portText (mem_marks hmark) hport

theorem Regular.cut (h : Regular u) :
    splitFirst (ascii "://") u.text = some (u.scheme, u.authority ++ u.path) ∧
    (u.authority ++ u.path).takeWhile (fun b => !endsAuthority b) = u.authority ∧
    (u.authority ++ u.path).dropWhile (fun b => !endsAuthority b) = u.path ∧
    dropUserinfo u.authority = u.authority := by
  obtain ⟨path, hpath, -⟩ := h.rooted
  have hends : (u.authority ++ u.path).takeWhile (fun b => !endsAuthority b) = u.authority ∧
      (u.authority ++ u.path).dropWhile (fun b => !endsAuthority b) = u.path := by
    refine takeWhile_dropWhile_iff.1 ⟨rfl, fun b hb => ?_, fun b hb => ?_⟩
    · have hend : endsAuthority b ≠ true := by
        rw [Ne, endsAuthority_iff]
        intro hmark
        refine h.notMem_authority ?_ hb
        simp [ascii] at hmark ⊢
        tauto
      simpa using hend
    · rw [hpath, List.head?_cons, Option.some.injEq] at hb
      simp [← hb, endsAuthority]
  refine ⟨splitFirst_eq_some_iff.2 ⟨rfl, fun p' q' heq => ?_⟩, hends.1, hends.2,
    dropUserinfo_eq_iff.2 ⟨.inl rfl, h.notMem_authority (by decide)⟩⟩
  have hcolon : u.scheme ++ 58 :: (ascii "//" ++ (u.authority ++ u.path)) = p' ++ 58 :: (ascii "//" ++ q') := by
    simpa [text, ascii] using heq
  exact length_le_of_notMem h.scheme_clean.1 hcolon

def parts (u : Url) : Parts := ⟨u.scheme, defaultPort u.scheme, u.authority, u.authority, u.host, u.portText, u.path⟩

theorem Regular.parts_url (h : Regular u) : u.parts.url = u := by
  obtain ⟨path, hpath, hfragment⟩ := h.rooted
  have hport : u.parts.url.port = u.port := by
    by_cases hdefault : u.port = defaultPort u.scheme
    · simp [parts, Parts.url, portText, hdefault]
    · simp [parts, Parts.url, portText, hdefault, Decimal.write_ne_nil]
  have htake : u.path.takeWhile (· != 35) = u.path := by
    refine List.takeWhile_eq_self_iff.2 fun b hb => ?_
    have hb35 : b ≠ 35 := by
      rintro rfl
      simp [hpath, hfragment] at hb
    simpa using hb35
  have htail : askedFor u.path = u.path := by
    unfold askedFor
    rw [htake]
    simp [hpath]
  have hparts : u.parts.url = ⟨lower u.scheme, lower u.host, u.parts.url.port, askedFor u.path⟩ := rfl
  rw [hparts, h.scheme_clean.2.1, h.lowered, hport, htail]

/-- A host that can be told from its brackets is found again. -/
theorem hostPort_authority (h : Tellable u.host) (hhost : u.host ≠ []) : HostPort u.authority u.host u.portText := by
  have hport : 58 ∉ u.portText := notMem_portText (by decide)
  rw [authority_eq]
  unfold Tellable at h
  by_cases hcolon : 58 ∈ u.host
  · rw [if_pos hcolon] at h
    by_cases hnone : u.portText = []
    · simpa [hcolon, hnone] using HostPort.bracketed h
    · have hsplit : HostPort (ascii "[" ++ u.host ++ ascii "]:" ++ u.portText) u.host u.portText := .bracketedPort h
      simpa [hcolon, hnone, ascii] using hsplit
  · rw [if_neg hcolon] at h
    by_cases hnone : u.portText = []
    · simpa [hcolon, hnone] using HostPort.plain h hcolon
    · obtain ⟨b, host, hcons⟩ := List.exists_cons_of_ne_nil hhost
      have hopen : (u.host ++ ascii ":" ++ u.portText).head? ≠ some 91 := by simpa [hcons] using h
      simpa [hcolon, hnone] using HostPort.plainPort hopen hport

theorem numbered_portText (h : u.port ≠ 0) : u.portText = [] ∨ (u.portText.length ≤ 5 ∧
    (∀ b ∈ u.portText, isDigit b = true) ∧ 1 ≤ Decimal.value u.portText ∧ Decimal.value u.portText ≤ 65535) := by
  have hsize := u.port.toNat_lt
  have hpos : u.port.toNat ≠ 0 := fun hzero => h (UInt16.toNat_inj.1 hzero)
  unfold portText
  split
  · exact .inl rfl
  · refine .inr ⟨(Decimal.length_write_le_iff (by decide)).2 (by omega), fun _ => Decimal.isDigit_of_mem_write, ?_, ?_⟩
    · rw [Decimal.value_write]
      omega
    · rw [Decimal.value_write]
      omega

theorem Regular.found (h : Regular u) (htell : Tellable u.host) : Found u.text (u.authority ++ u.path) u.parts where
  cut := h.cut.1
  spoken := by
    have hspoken := defaultPort_eq_iff.2 h.scheme_clean.2.2
    exact ⟨h.scheme_clean.2.1.symm ▸ rfl, hspoken.2⟩
  ends := ⟨h.cut.2.1, h.cut.2.2.1⟩
  bare := h.cut.2.2.2
  split := splitAuthority_eq_ok_iff.2 ⟨hostPort_authority htell h.named, h.named⟩
  numbered := numbered_portText h.numbered

/-! Brackets count. -/

theorem HostPort.count {site host port : Bytes} (h : HostPort site host port) (hopen : site.head? = some 91)
    (hport : ∀ b ∈ port, isDigit b = true) : site.count 93 = 1 := by
  have hnone : 93 ∉ port := fun hmem => nomatch hport 93 hmem
  cases h with
  | bracketed hb => simp [ascii, List.count_eq_zero.2 hb]
  | bracketedPort hb => simp [ascii, List.count_eq_zero.2 hb, List.count_eq_zero.2 hnone]
  | plain hplain => exact absurd hopen hplain
  | plainPort hplain => exact absurd hopen hplain

theorem count_authority (u : Url) : u.authority.count 93 = (if 58 ∈ u.host then 1 else 0) + u.host.count 93 := by
  have hport : u.portText.count 93 = 0 := List.count_eq_zero.2 (notMem_portText (by decide))
  rw [authority_eq]
  split <;> split <;> simp [ascii, hport, Nat.add_comm]

theorem Regular.tellable (h : Regular u) {rest : Bytes} {p : Parts} (hfound : Found u.text rest p) :
    Tellable u.host := by
  obtain ⟨hcut, htake, -, hbare⟩ := h.cut
  obtain ⟨-, rfl⟩ := Prod.mk.inj (Option.some.inj (hfound.cut.symm.trans hcut))
  have hsite : p.site = u.authority := by
    rw [← hfound.bare, ← hfound.ends.1, htake, hbare]
  have hsplit := (splitAuthority_eq_ok_iff.1 hfound.split).1
  have hdigits : ∀ b ∈ p.port, isDigit b = true := by
    rcases hfound.numbered with hnone | hsome
    · simp [hnone]
    · exact hsome.2.1
  rw [hsite] at hsplit
  have hcount : u.authority.head? = some 91 → u.authority.count 93 = 1 := fun hopen => hsplit.count hopen hdigits
  rw [count_authority, authority_eq] at hcount
  unfold Tellable
  by_cases hcolon : 58 ∈ u.host
  · simpa [hcolon, ascii, List.count_eq_zero] using hcount
  · rw [if_neg hcolon]
    intro hopen
    have hclose : u.host.count 93 = 0 := List.count_eq_zero.2 (h.opened hopen)
    simp [hcolon, hopen, hclose] at hcount

/-- An address that is written and read back is the same address, if its host can be told from the brackets that are put
around it; if not, what was written is refused. It never becomes an address of another origin. -/
theorem parse_text (h : parse t = .ok u) :
    (Tellable u.host → parse u.text = .ok u) ∧
    (¬Tellable u.host → ∃ fault, parse u.text = .error fault ∧ fault.code = .protocolInvalidUrl) := by
  have hread : read t = .ok u := by
    cases hr : read t with
    | ok v => simpa [parse, hr, Except.mapError] using h
    | error i => simp [parse, hr, Except.mapError] at h
  obtain ⟨p, hspelling, rfl⟩ := read_eq_ok_iff.1 hread
  have hregular := hspelling.regular
  constructor
  · intro htell
    rw [parse, read_of_found (hregular.found htell), hregular.parts_url]
    rfl
  · intro htell
    cases hr : read p.url.text with
    | ok v =>
      obtain ⟨rest, q, hfound, -⟩ := found_of_read hr
      exact absurd (hregular.tellable hfound) htell
    | error i => exact ⟨i.fault p.url.text, by rw [parse, hr]; rfl, rfl⟩

/-- Userinfo, letter case, zeros in front of the port and the fragment are lost, and the address stays the same. -/
theorem parse_text_port :
    parse (ascii "HTTPS://me@[FE80::1]:08443?q#f") = .ok ⟨ascii "https", ascii "fe80::1", 8443, ascii "/?q"⟩ ∧
    parse (ascii "https://[fe80::1]:8443/?q") = .ok ⟨ascii "https", ascii "fe80::1", 8443, ascii "/?q"⟩ := by
  have hread : parse (ascii "HTTPS://me@[FE80::1]:08443?q#f") =
      .ok ⟨ascii "https", ascii "fe80::1", 8443, ascii "/?q"⟩ := by decide +kernel
  exact ⟨hread, (parse_text hread).1 (by decide +kernel)⟩

/-- A host that is itself an opening bracket was read from within brackets. It is written without them, and what is
written is no address. -/
theorem bracket_host_refused :
    parse (ascii "http://[[]/") = .ok ⟨ascii "http", ascii "[", 80, ascii "/"⟩ ∧
    parse (text ⟨ascii "http", ascii "[", 80, ascii "/"⟩) =
      .error ⟨.protocolInvalidUrl, ascii "Unterminated IPv6 host: http://[/"⟩ := by
  decide +kernel

end Multiplex.Url

import Multiplex.Proofs.Address

/-! Reading an address by places. Here a text is not taken apart but looked into: a place is searched for, and a slice
is taken from one place up to another. A place outside of the text, or a slice that would end before it starts, would be
an error in the program and not in the text; no text leads to one, and what is found is what the reader of addresses
finds. -/
namespace Multiplex

namespace Bytes

def place (pat : Bytes) : Bytes → Option Nat
  | [] => if pat = [] then some 0 else none
  | x :: s => if pat.isPrefixOf (x :: s) then some 0 else (place pat s).map (· + 1)

def lastPlace (b : UInt8) : Bytes → Option Nat
  | [] => none
  | x :: s =>
    match lastPlace b s with
    | some k => some (k + 1)
    | none => if x = b then some 0 else none

def placeFrom (f : UInt8 → Bool) (s : Bytes) (start : Nat) : Option Nat :=
  ((s.drop start).findIdx? f).map (start + ·)

/-- What stands between two places, or behind a place if there is no second one. Nothing if a place lies outside of the
text, or the second one before the first. -/
def slice (s : Bytes) (start : Nat) : Option Nat → Option Bytes
  | none => if start ≤ s.length then some (s.drop start) else none
  | some finish => if start ≤ finish ∧ finish ≤ s.length then some ((s.drop start).take (finish - start)) else none

theorem place_eq (pat s : Bytes) : place pat s = (splitFirst pat s).map (·.1.length) := by
  induction s with
  | nil => by_cases hpat : pat = [] <;> simp [place, splitFirst, hpat]
  | cons x s ih =>
    by_cases hfirst : pat.isPrefixOf (x :: s) = true
    · simp [place, splitFirst, hfirst]
    · simp [place, splitFirst, hfirst, ih, Function.comp_def]

theorem lastPlace_eq (b : UInt8) (s : Bytes) : lastPlace b s = (splitLast b s).map (·.1.length) := by
  induction s with
  | nil => rfl
  | cons x s ih =>
    rw [lastPlace, splitLast, ih]
    cases splitLast b s with
    | none => by_cases hx : x = b <;> simp [hx]
    | some c => rfl

theorem findIdx?_eq (f : UInt8 → Bool) (s : Bytes) : s.findIdx? f =
    if (s.dropWhile fun b => !f b) = [] then none else some (s.takeWhile fun b => !f b).length := by
  induction s with
  | nil => rfl
  | cons x s ih =>
    rw [List.findIdx?_cons, List.dropWhile_cons, List.takeWhile_cons]
    cases hx : f x with
    | true => rfl
    | false =>
      rw [ih]
      by_cases hend : (s.dropWhile fun b => !f b) = []
      · simp only [hend, Bool.not_false, Bool.false_eq_true, ↓reduceIte, Option.map_none]
      · simp only [hend, Bool.not_false, Bool.false_eq_true, ↓reduceIte, Option.map_some, List.length_cons]

theorem placeFrom_append (f : UInt8 → Bool) (p s : Bytes) : placeFrom f (p ++ s) p.length =
    if (s.dropWhile fun b => !f b) = [] then none else some (p.length + (s.takeWhile fun b => !f b).length) := by
  rw [placeFrom, List.drop_left, findIdx?_eq]
  split <;> rfl

theorem slice_placeFrom (f : UInt8 → Bool) (p s : Bytes) :
    slice (p ++ s) p.length (placeFrom f (p ++ s) p.length) = some (s.takeWhile fun b => !f b) := by
  have hsplit : s.takeWhile (fun b => !f b) ++ s.dropWhile (fun b => !f b) = s := List.takeWhile_append_dropWhile
  have hlength := congrArg List.length hsplit
  rw [List.length_append] at hlength
  rw [placeFrom_append]
  by_cases hend : (s.dropWhile fun b => !f b) = []
  · rw [hend, List.append_nil] at hsplit
    simp [hend, hsplit, slice]
  · have hinside : (s.takeWhile fun b => !f b).length ≤ s.length := by omega
    have htake : s.take (s.takeWhile fun b => !f b).length = s.takeWhile fun b => !f b :=
      List.prefix_iff_eq_take.1 (List.takeWhile_prefix _) |>.symm
    simp [hend, slice, hinside, htake]

end Bytes

namespace Url

open Bytes

def siteByPlace (authority : Bytes) : Option Bytes :=
  match lastPlace 64 authority with
  | none => some authority
  | some k => slice authority (k + 1) none

def splitByPlace (site : Bytes) : Option (Except Issue (Bytes × Bytes)) :=
  if site.isEmpty then some (.error .missingHost)
  else do
    let first ← site[0]?
    if first = 91 then
      match place [93] site with
      | none => some (.error .unterminatedHost)
      | some close => do
        let host ← slice site 1 (some close)
        if close + 1 < site.length then do
          let behind ← site[close + 1]?
          if behind = 58 then (slice site (close + 2) none).map fun port => .ok (host, port)
          else some (.error .invalidAuthority)
        else some (.ok (host, []))
    else
      match lastPlace 58 site with
      | none => some (.ok (site, []))
      | some colon => do
        let port ← slice site (colon + 1) none
        let host ← slice site 0 (some colon)
        some (.ok (host, port))

def pathByPlace (text : Bytes) : Option Nat → Option Bytes
  | none => some [47]
  | some start => do
    let path ← slice text start (placeFrom (· == 35) text start)
    if path.isEmpty then some (47 :: path)
    else do
      let first ← path[0]?
      some (if first = 47 then path else 47 :: path)

/-- The address in a text; nothing if the text is looked at outside of it. -/
def readByPlace (text : Bytes) : Option (Except Issue Url) :=
  match place (ascii "://") text with
  | none | some 0 => some (.error .missingScheme)
  | some schemeEnd => do
    let scheme := lower (← slice text 0 (some schemeEnd))
    if defaultPort scheme = 0 then some (.error (.unsupportedScheme scheme))
    else do
      let start := schemeEnd + 3
      let pathStart := placeFrom endsAuthority text start
      let authority ← slice text start pathStart
      let site ← siteByPlace authority
      match ← splitByPlace site with
      | .error i => some (.error i)
      | .ok (host, port) =>
        if host = [] then some (.error .missingHost)
        else do
          let path ← pathByPlace text pathStart
          if port = [] then some (.ok ⟨scheme, lower host, defaultPort scheme, path⟩)
          else
            match readPort port with
            | none => some (.error .invalidPort)
            | some port => some (.ok ⟨scheme, lower host, port, path⟩)

theorem siteByPlace_eq (authority : Bytes) : siteByPlace authority = some (dropUserinfo authority) := by
  rw [siteByPlace, dropUserinfo, lastPlace_eq]
  cases hsplit : splitLast 64 authority with
  | none => rfl
  | some c =>
    obtain ⟨userinfo, site⟩ := c
    obtain ⟨rfl, -⟩ := splitLast_eq_some_iff.1 hsplit
    simp [slice]

theorem splitByPlace_eq (site : Bytes) : splitByPlace site = some (splitAuthority site) := by
  cases site with
  | nil => rfl
  | cons b rest =>
    by_cases hb : b = 91
    · subst hb
      have hplace : place [93] (91 :: rest) = (splitFirst [93] rest).map fun c => c.1.length + 1 := by
        simp [place, place_eq, Function.comp_def]
      cases hsplit : splitFirst [93] rest with
      | none => simp [splitByPlace, splitAuthority, hplace, hsplit]
      | some c =>
        obtain ⟨host, behind⟩ := c
        obtain ⟨rfl, -⟩ := splitFirst_byte_eq_some_iff.1 hsplit
        cases behind with
        | nil => simp [splitByPlace, splitAuthority, hplace, hsplit, slice]
        | cons c port =>
          by_cases hc : c = 58
          · subst hc
            simp [splitByPlace, splitAuthority, hplace, hsplit, slice]
          · simp [splitByPlace, splitAuthority, hplace, hsplit, slice, hc]
    · cases hsplit : splitLast 58 (b :: rest) with
      | none => simp [splitByPlace, splitAuthority, hb, lastPlace_eq, hsplit]
      | some c =>
        obtain ⟨host, port⟩ := c
        obtain ⟨hsite, -⟩ := splitLast_eq_some_iff.1 hsplit
        have hport : slice (b :: rest) (host.length + 1) none = some port := by simp [hsite, slice]
        have hhost : slice (b :: rest) 0 (some host.length) = some host := by simp [hsite, slice]
        simp [splitByPlace, splitAuthority, hb, lastPlace_eq, hsplit, hport, hhost]

theorem pathByPlace_eq (before rest : Bytes) :
    pathByPlace (before ++ rest) (placeFrom endsAuthority (before ++ rest) before.length) =
      some (pathOf (rest.dropWhile fun b => !endsAuthority b)) := by
  have hsplit : rest.takeWhile (fun b => !endsAuthority b) ++ rest.dropWhile (fun b => !endsAuthority b) = rest :=
    List.takeWhile_append_dropWhile
  rw [placeFrom_append]
  generalize rest.takeWhile (fun b => !endsAuthority b) = authority at hsplit ⊢
  generalize rest.dropWhile (fun b => !endsAuthority b) = tail at hsplit ⊢
  subst hsplit
  by_cases htail : tail = []
  · simp [htail, pathByPlace, pathOf]
  · have hpath := slice_placeFrom (· == 35) (before ++ authority) tail
    rw [List.length_append, List.append_assoc] at hpath
    rw [if_neg htail, pathByPlace]
    simp only [hpath, Option.bind_eq_bind, Option.bind_some, pathOf, bne]
    cases tail.takeWhile fun b => !(b == 35) with
    | nil => rfl
    | cons b path => by_cases hb : b = 47 <;> simp [hb]

/-- No text is looked at outside of it, and both readers agree. -/
theorem readByPlace_eq (text : Bytes) : readByPlace text = some (read text) := by
  cases hsplit : splitFirst (ascii "://") text with
  | none => simp [readByPlace, read, place_eq, hsplit]
  | some c =>
    obtain ⟨scheme, rest⟩ := c
    cases scheme with
    | nil => simp [readByPlace, read, place_eq, hsplit]
    | cons b scheme =>
      -- Places count from the start of the text, while the other reader cuts off what it has read.
      have htext : text = (b :: scheme) ++ ascii "://" ++ rest := eq_of_splitFirst hsplit
      have hscheme : slice text 0 (some (scheme.length + 1)) = some (b :: scheme) := by
        simp [htext, slice]
      have hlength : ((b :: scheme) ++ ascii "://").length = scheme.length + 1 + 3 := by simp [ascii]
      have hauthority := slice_placeFrom endsAuthority ((b :: scheme) ++ ascii "://") rest
      have hpath := pathByPlace_eq ((b :: scheme) ++ ascii "://") rest
      rw [← htext, hlength] at hauthority hpath
      simp only [readByPlace, read, place_eq, hsplit, Option.map_some, List.length_cons, hscheme, hauthority, hpath,
        siteByPlace_eq, splitByPlace_eq, Option.bind_eq_bind, Option.bind_some]
      by_cases hspoken : defaultPort (lower (b :: scheme)) = 0
      · rw [if_pos hspoken, if_pos hspoken]
      · rw [if_neg hspoken, if_neg hspoken]
        cases splitAuthority (dropUserinfo (rest.takeWhile fun b => !endsAuthority b)) with
        | error i => rfl
        | ok parts =>
          obtain ⟨host, port⟩ := parts
          by_cases hhost : host = []
          · simp only [hhost, ↓reduceIte]
          · by_cases hport : port = []
            · simp only [hhost, hport, ↓reduceIte]
            · simp only [hhost, hport, ↓reduceIte]
              cases readPort port <;> rfl

/-- An address is read from exactly the texts of the grammar, with the parts that the grammar gives it; any other text
is refused as no address, and none is looked at outside of it. -/
theorem parse_exactly (text : Bytes) :
    (∀ u, parse text = .ok u ↔ ∃ p, Spelling text p ∧ p.url = u) ∧
    (∀ fault, parse text = .error fault → fault.code = .protocolInvalidUrl) ∧
    ∃ answer, readByPlace text = some answer ∧ parse text = answer.mapError (Issue.fault text) := by
  refine ⟨fun u => ?_, fun fault hfault => ?_, read text, readByPlace_eq text, rfl⟩
  · rw [← read_eq_ok_iff, parse]
    cases read text <;> simp [Except.mapError]
  · rw [parse] at hfault
    cases hread : read text with
    | ok u => simp [hread, Except.mapError] at hfault
    | error i =>
      rw [hread] at hfault
      exact (Except.error.inj hfault) ▸ rfl

/-- Two at-signs, two colons, a port with zeros in front and a query without a path are all in the grammar; a byte
between the closing bracket and the port is not. -/
theorem parse_exactly_odd :
    (∃ p, Spelling (ascii "HTTP://me@here@A:b:0080?q#f") p ∧ p.url = ⟨ascii "http", ascii "a:b", 80, ascii "/?q"⟩) ∧
    ∀ p u, ¬(Spelling (ascii "http://[::1]x:80/") p ∧ p.url = u) := by
  refine ⟨((parse_exactly _).1 _).1 (by decide +kernel), fun p u h => ?_⟩
  have hok := ((parse_exactly _).1 u).2 ⟨p, h⟩
  have hrefused : (parse (ascii "http://[::1]x:80/")).toOption = none := by decide +kernel
  rw [hok] at hrefused
  cases hrefused

end Url

end Multiplex

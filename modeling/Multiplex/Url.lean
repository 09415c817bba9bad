import Multiplex.Decimal
import Multiplex.Fault

/-! Connection addresses. Reading separates scheme, host, port and path and forgets userinfo and fragment;
scheme and host are kept in lower case. The authority text names host and port for the peer, leaving out the
port that the scheme implies. -/
namespace Multiplex

open Bytes

structure Url where
  scheme : Bytes := []
  host : Bytes := []
  port : UInt16 := 0
  path : Bytes := []
  deriving DecidableEq, Inhabited

namespace Url

inductive Issue where
  | missingScheme
  | unsupportedScheme (scheme : Bytes)
  | missingHost
  | unterminatedHost
  | invalidAuthority
  | invalidPort
  deriving DecidableEq

def Issue.message (text : Bytes) : Issue → Bytes
  | missingScheme => ascii "Missing scheme: " ++ text
  | unsupportedScheme scheme => ascii "Unsupported scheme: " ++ scheme
  | missingHost => ascii "Missing host: " ++ text
  | unterminatedHost => ascii "Unterminated IPv6 host: " ++ text
  | invalidAuthority => ascii "Invalid authority: " ++ text
  | invalidPort => ascii "Invalid port: " ++ text

def Issue.fault (text : Bytes) (i : Issue) : Fault := ⟨.protocolInvalidUrl, i.message text⟩

/-- The port that a scheme implies; zero for a scheme that is not spoken here. -/
def defaultPort (scheme : Bytes) : UInt16 :=
  if scheme = ascii "https" then 443 else if scheme = ascii "http" then 80 else 0

def endsAuthority (b : UInt8) : Bool := b == 47 || b == 63 || b == 35

def dropUserinfo (authority : Bytes) : Bytes :=
  match splitLast 64 authority with
  | some (_, rest) => rest
  | none => authority

/-- Host and port text of an authority; a host in brackets may hold colons. -/
def splitAuthority : Bytes → Except Issue (Bytes × Bytes)
  | [] => .error .missingHost
  | b :: rest =>
    if b = 91 then
      match splitFirst [93] rest with
      | none => .error .unterminatedHost
      | some (host, []) => .ok (host, [])
      | some (host, c :: port) => if c = 58 then .ok (host, port) else .error .invalidAuthority
    else
      match splitLast 58 (b :: rest) with
      | some parts => .ok parts
      | none => .ok (b :: rest, [])

def readPort (text : Bytes) : Option UInt16 :=
  if text.length ≤ 5 then
    match Decimal.readUpTo 65535 text with
    | some 0 => none
    | some n => some (UInt16.ofNat n)
    | none => none
  else none

/-- What is asked of the peer: no fragment, and a slash in front. -/
def pathOf (tail : Bytes) : Bytes :=
  match tail.takeWhile (· != 35) with
  | [] => [47]
  | b :: path => if b = 47 then b :: path else 47 :: b :: path

def read (text : Bytes) : Except Issue Url :=
  match splitFirst (ascii "://") text with
  | none => .error .missingScheme
  | some ([], _) => .error .missingScheme
  | some (s :: scheme, rest) =>
    let scheme := lower (s :: scheme)
    if defaultPort scheme = 0 then .error (.unsupportedScheme scheme)
    else
      match splitAuthority (dropUserinfo (rest.takeWhile fun b => !endsAuthority b)) with
      | .error i => .error i
      | .ok (host, port) =>
        if host = [] then .error .missingHost
        else
          let path := pathOf (rest.dropWhile fun b => !endsAuthority b)
          if port = [] then .ok ⟨scheme, lower host, defaultPort scheme, path⟩
          else
            match readPort port with
            | none => .error .invalidPort
            | some port => .ok ⟨scheme, lower host, port, path⟩

def parse (text : Bytes) : Except Fault Url := (read text).mapError (Issue.fault text)

def authority (u : Url) : Bytes :=
  let host := if 58 ∈ u.host then 91 :: u.host ++ [93] else u.host
  if u.port = defaultPort u.scheme then host else host ++ 58 :: Decimal.write u.port.toNat

def sameOrigin (a b : Url) : Bool := a.scheme == b.scheme && a.host == b.host && a.port == b.port

theorem sameOrigin_iff {a b : Url} :
    a.sameOrigin b = true ↔ a.scheme = b.scheme ∧ a.host = b.host ∧ a.port = b.port := by
  simp [sameOrigin, and_assoc]

theorem sameOrigin_comm (a b : Url) : a.sameOrigin b = b.sameOrigin a := by
  rw [Bool.eq_iff_iff, sameOrigin_iff, sameOrigin_iff]
  simp only [eq_comm]

theorem pathOf_eq (tail : Bytes) : ∃ p, pathOf tail = 47 :: p ∧ 35 ∉ p := by
  have hm : 35 ∉ tail.takeWhile (· != 35) := by
    induction tail with
    | nil => simp
    | cons b s ih =>
      by_cases hb : b = 35
      · simp [hb]
      · simp [hb, ih, Ne.symm hb]
  unfold pathOf
  split
  next h => exact ⟨[], rfl, by simp⟩
  next b p h =>
    rw [h] at hm
    split
    next e => exact ⟨p, by rw [e], fun m => hm (List.mem_cons_of_mem _ m)⟩
    next => exact ⟨b :: p, rfl, hm⟩

end Url

end Multiplex

import Multiplex.Proofs.Head

/-! Comparing names. A look-up compares the lengths of two names and then, byte by byte, the texts as they are stored,
where a zero byte ends each; a request is put together with names in lower case, compared as a whole. Both ways tell the
same names apart wherever one of the two has no zero byte, so the caller of a request and the peer give a length under
the same names. -/
namespace Multiplex

open Bytes

namespace Bytes

def difference (a b : UInt8) : Int := (lowerByte a).toNat - (lowerByte b).toNat

/-- Compares two stored texts up to their first difference or to a zero byte in both. There is no answer if the
comparison would go on behind what is stored. -/
def compareStored : Bytes → Bytes → Option Int
  | a :: s, b :: t => if difference a b = 0 ∧ a ≠ 0 then compareStored s t else some (difference a b)
  | _, _ => none

theorem difference_eq_zero_iff {a b : UInt8} : difference a b = 0 ↔ lowerByte a = lowerByte b := by
  rw [difference, Int.sub_eq_zero, Int.natCast_inj, UInt8.toNat_inj]

theorem untilNul_cons {b : UInt8} (hb : b ≠ 0) (s : Bytes) : untilNul (b :: s) = b :: untilNul s :=
  List.takeWhile_cons_of_pos (by simpa using hb)

theorem untilNul_append_zero (s : Bytes) : untilNul (s ++ [0]) = untilNul s := by
  induction s with
  | nil => rfl
  | cons b s ih =>
    by_cases hb : b = 0
    · rw [hb]
      rfl
    · rw [List.cons_append, untilNul_cons hb, untilNul_cons hb, ih]

theorem lowerByte_eq_of_untilNul {a b : UInt8} {s t : Bytes}
    (h : lower (untilNul (a :: s)) = lower (untilNul (b :: t))) : lowerByte a = lowerByte b := by
  by_cases ha : a = 0 <;> by_cases hb : b = 0
  · rw [ha, hb]
  · rw [ha, untilNul_cons hb] at h
    cases h
  · rw [hb, untilNul_cons ha] at h
    cases h
  · rw [untilNul_cons ha, untilNul_cons hb] at h
    exact (List.cons.inj h).1

theorem compareStored_of_mem {s t : Bytes} (hs : 0 ∈ s) (ht : 0 ∈ t) :
    ∃ d, compareStored s t = some d ∧ (d = 0 ↔ lower (untilNul s) = lower (untilNul t)) := by
  induction s generalizing t with
  | nil => cases hs
  | cons a s ih =>
    cases t with
    | nil => cases ht
    | cons b t =>
      by_cases hgo : difference a b = 0 ∧ a ≠ 0
      · obtain ⟨hdifference, ha⟩ := hgo
        have hlower : lowerByte a = lowerByte b := difference_eq_zero_iff.1 hdifference
        have hb : b ≠ 0 := mt (eq_zero_iff_of_lowerByte_eq hlower).2 ha
        have hs' : 0 ∈ s := (List.mem_cons.1 hs).resolve_left ha.symm
        have ht' : 0 ∈ t := (List.mem_cons.1 ht).resolve_left hb.symm
        obtain ⟨d, hd, hiff⟩ := ih hs' ht'
        refine ⟨d, by rw [compareStored, if_pos ⟨hdifference, ha⟩, hd], hiff.trans ?_⟩
        rw [untilNul_cons ha, untilNul_cons hb]
        simp [lower, hlower]
      · refine ⟨difference a b, by rw [compareStored, if_neg hgo], fun hzero => ?_, fun h => ?_⟩
        · -- no difference, so the zero byte that stopped the comparison ends both
          have ha : a = 0 := Classical.not_not.1 fun ha => hgo ⟨hzero, ha⟩
          have hb : b = 0 := (eq_zero_iff_of_lowerByte_eq (difference_eq_zero_iff.1 hzero)).1 ha
          rw [ha, hb]
          rfl
        · exact difference_eq_zero_iff.2 (lowerByte_eq_of_untilNul h)

end Bytes

theorem Stream.requestFields_eq_find (s : Stream) (u : Url) : s.requestFields u =
    [(ascii ":method", s.request.method), (ascii ":authority", u.authority), (ascii ":scheme", u.scheme),
        (ascii ":path", u.path)] ++ s.request.headers.map (fun h => (lower h.1, h.2)) ++
      if s.request.body ≠ [] ∧ Header.find s.request.headers (ascii "content-length") = none then
        [(ascii "content-length", Decimal.write s.request.body.length)]
      else [] := by
  simp only [s.requestFields_eq, Header.find_eq_none_iff Header.zero_notMem_contentLength, Header.lower_contentLength]

namespace Header

/-- Names are equal if they are equally long and the comparison of their stored texts, which never leaves these, finds
no difference. -/
theorem nameEq_eq_compareStored (a b : Bytes) :
    ∃ d, compareStored (a ++ [0]) (b ++ [0]) = some d ∧ nameEq a b = (a.length == b.length && d == 0) := by
  have hend : ∀ s : Bytes, (0 : UInt8) ∈ s ++ [0] := fun s => List.mem_append_right s (List.mem_singleton_self 0)
  obtain ⟨d, hd, hzero⟩ := compareStored_of_mem (hend a) (hend b)
  rw [untilNul_append_zero, untilNul_append_zero] at hzero
  refine ⟨d, hd, ?_⟩
  rw [nameEq, Bool.eq_iff_iff]
  simp [hzero]

/-- With a zero byte in both, the bytes behind it are passed over. -/
example : nameEq [97, 0, 98] [65, 0, 99] = true ∧ lower [97, 0, 98] ≠ lower [65, 0, 99] := by decide

theorem find_length_eq_find? (fields : Headers) : find fields (ascii "content-length") =
    (fields.find? fun f => lower f.1 == ascii "content-length").map Prod.snd := by
  rw [find_eq_find? zero_notMem_contentLength, lower_contentLength]

/-- Comparing stored texts and comparing in lower case come to the same for every name without a zero byte: one by one,
in a look-up, and for the length of a body, whether a caller gives it or the peer announces it. -/
theorem comparisons_agree {name : Bytes} (hname : 0 ∉ name) :
    (∀ other, nameEq other name = true ↔ lower other = lower name) ∧
    (∀ a b, ∃ d, compareStored (a ++ [0]) (b ++ [0]) = some d ∧ nameEq a b = (a.length == b.length && d == 0)) ∧
    (∀ fields value, find fields name = some value ↔
      ∃ before other after, fields = before ++ (other, value) :: after ∧ lower other = lower name ∧
        ∀ f ∈ before, lower f.1 ≠ lower name) ∧
    (∀ fields, find fields name = none ↔ ∀ f ∈ fields, lower f.1 ≠ lower name) ∧
    (∀ other, nameEq other (ascii "content-length") = (lower other == ascii "content-length")) ∧
    (∀ (s : Stream) (u : Url), s.requestFields u =
      [(ascii ":method", s.request.method), (ascii ":authority", u.authority), (ascii ":scheme", u.scheme),
          (ascii ":path", u.path)] ++ s.request.headers.map (fun h => (lower h.1, h.2)) ++
        if s.request.body ≠ [] ∧ find s.request.headers (ascii "content-length") = none then
          [(ascii "content-length", Decimal.write s.request.body.length)]
        else []) ∧
    ∀ r : Response, Turn.announcedSize r =
      ((r.headers.find? fun f => lower f.1 == ascii "content-length").map Prod.snd).bind Decimal.read := by
  refine ⟨fun _ => nameEq_iff hname, nameEq_eq_compareStored, fun _ _ => find_eq_some_iff hname,
    fun _ => find_eq_none_iff hname, fun other => ?_, Stream.requestFields_eq_find, fun r => ?_⟩
  · rw [Bool.eq_iff_iff, nameEq_iff zero_notMem_contentLength, lower_contentLength, beq_iff_eq]
  · rw [Turn.announcedSize, find_length_eq_find?]

/-- A byte above 127 has no letter case, and a zero byte in the other name is a difference. -/
theorem comparisons_agree_odd_bytes :
    (0 : UInt8) ∉ ([88, 195, 132] : Bytes) ∧ nameEq [120, 195, 132] [88, 195, 132] = true ∧
    ¬nameEq [120, 195, 164] [88, 195, 132] = true ∧ ¬nameEq [120, 0, 132] [88, 195, 132] = true ∧
    find [([120, 0, 132], [1]), ([120, 195, 164], [2]), ([120, 195, 132], [3]), ([88, 195, 132], [4])] [88, 195, 132] =
      some [3] := by
  have hname : (0 : UInt8) ∉ ([88, 195, 132] : Bytes) := by decide
  obtain ⟨heq, -, hfind, -⟩ := comparisons_agree hname
  refine ⟨hname, (heq _).2 (by decide), mt (heq _).1 (by decide), mt (heq _).1 (by decide), (hfind _ _).2 ?_⟩
  exact ⟨[([120, 0, 132], [1]), ([120, 195, 164], [2])], [120, 195, 132], [([88, 195, 132], [4])], rfl,
    by decide, by decide⟩

end Header

end Multiplex

import Multiplex.Bytes

/-! Time formats without a field of the date: text stands for itself, and `%%`, `%n` and `%t` for a percent sign,
a line break and a tabulator. -/
namespace Multiplex.TimeFormat

def expandAll : Bytes → Bytes
  | [] => []
  | 37 :: 37 :: r => 37 :: expandAll r
  | 37 :: 110 :: r => 10 :: expandAll r
  | 37 :: 116 :: r => 9 :: expandAll r
  | [37] => []
  | b :: r => b :: expandAll r

def expand (format : Bytes) : Bytes := expandAll (Bytes.untilNul format)

theorem expandAll_of_notMem {s : Bytes} (h : 37 ∉ s) : expandAll s = s := by
  induction s with
  | nil => rfl
  | cons b s ih =>
    have hb : b ≠ 37 := fun e => h (by simp [e])
    rw [expandAll.eq_6 b s (by simp [hb]) (by simp [hb]) (by simp [hb]) (by simp [hb]),
      ih fun m => h (List.mem_cons_of_mem _ m)]

end Multiplex.TimeFormat

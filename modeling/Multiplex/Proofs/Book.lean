import Mathlib.Logic.Function.Basic
import Multiplex.Proofs.Registry

/-! The register as a book: a map from ids to items, and the line of the items that wait. A book has no flags, no
counter and no queue of ids, and nothing in it is ever skipped. Each operation does to the book of a register what it
does to the register. A register that queues the items themselves, and looks whether the very item is still registered
when its turn comes, does the same. -/
namespace Multiplex.Registry

variable {α : Type} {r r' : Registry α} {id : UInt32} {item : α} {e : Entry α}

def waiting (r : Registry α) : List (UInt32 × α) := r.pending.filterMap fun id => (r.find id).map (id, ·)

def line (r : Registry α) : List α := r.waiting.map (·.2)

def Single (r : Registry α) : Prop := ∀ a ∈ r.entries, ∀ b ∈ r.entries, a.item = b.item → a.id = b.id

/-! What is found. -/

theorem add_of_fresh (item : α) (h : r.contains id = false) : r.add id item =
    .ok { r with entries := Entry.insert { id, item } r.entries, pending := r.pending ++ [id] } := by
  simp [add, h]

theorem Coherent.find_eq_some_iff (h : r.Coherent) :
    r.find id = some item ↔ ∃ e ∈ r.entries, e.id = id ∧ e.item = item := by
  constructor
  · intro hfind
    obtain ⟨e, he, rfl⟩ := Option.map_eq_some_iff.1 hfind
    obtain ⟨hmem, hid⟩ := mem_of_findEntry he
    exact ⟨e, hmem, hid, rfl⟩
  · rintro ⟨e, he, rfl, rfl⟩
    simp [find, h.findEntry_of_mem he]

theorem contains_eq (r : Registry α) (id : UInt32) : r.contains id = (r.find id).isSome := by
  simp [contains, find]

theorem find_markAdmitted (r : Registry α) (id : UInt32) : (r.markAdmitted id).find = r.find := by
  funext id'
  have hsame : ((fun e : Entry α => e.id == id') ∘ fun e => if e.id == id then { e with admitted := true } else e) =
      fun e => e.id == id' := by
    funext e
    simp only [Function.comp_apply]
    split <;> rfl
  have hitem :
      (Entry.item ∘ fun e : Entry α => if e.id == id then { e with admitted := true } else e) = Entry.item := by
    funext e
    simp only [Function.comp_apply]
    split <;> rfl
  simp only [find, findEntry, markAdmitted, List.find?_map, hsame, Option.map_map, hitem]

theorem find_add (h : r.Coherent) (hadd : r.add id item = .ok r') :
    r'.find = Function.update r.find id (some item) := by
  funext id'
  have hr' := h.add hadd
  obtain ⟨hfresh, rfl⟩ := add_eq_ok_iff.1 hadd
  ext x
  rw [hr'.find_eq_some_iff]
  simp only [Entry.mem_insert]
  by_cases hid : id' = id
  · subst hid
    rw [Function.update_self, Option.some.injEq]
    constructor
    · rintro ⟨e, rfl | he, hid, hx⟩
      · exact hx
      · exact absurd hid (hfresh e he)
    · rintro rfl
      exact ⟨_, .inl rfl, rfl, rfl⟩
  · rw [Function.update_of_ne hid, h.find_eq_some_iff]
    constructor
    · rintro ⟨e, rfl | he, hid', hx⟩
      · exact absurd hid'.symm hid
      · exact ⟨e, he, hid', hx⟩
    · rintro ⟨e, he, h'⟩
      exact ⟨e, .inr he, h'⟩

theorem find_remove (r : Registry α) (id : UInt32) : (r.remove id).2.find = Function.update r.find id none := by
  have hentries : (r.remove id).2.entries = r.others id := by
    unfold remove
    split
    · rename_i hnone
      have hother := findEntry_eq_none_iff.1 hnone
      exact (List.filter_eq_self.2 fun e he => by simpa using hother e he).symm
    · dsimp only
      split <;> rfl
  funext id'
  rw [find, findEntry, hentries, others, List.find?_filter]
  by_cases hid : id' = id
  · simp [hid]
  · have hsame : ∀ e : Entry α, (e.id != id) = true ∧ (e.id == id') = true ↔ (e.id == id') = true := by
      intro e
      by_cases he : e.id = id' <;> simp [he, hid]
    simp only [hsame, Bool.decide_eq_true, Function.update_of_ne hid, find, findEntry]

/-! Who waits. -/

namespace Coherent

theorem mem_waiting (h : r.Coherent) :
    (id, item) ∈ r.waiting ↔ ∃ e ∈ r.entries, e.id = id ∧ e.item = item ∧ e.admitted = false := by
  simp only [waiting, List.mem_filterMap, Option.map_eq_some_iff, h.queued]
  constructor
  · rintro ⟨id', ⟨e, he, rfl, ha⟩, x, hx, heq⟩
    obtain ⟨rfl, rfl⟩ := Prod.mk.inj heq
    obtain ⟨e', he', hid, rfl⟩ := h.find_eq_some_iff.1 hx
    exact ⟨e, he, rfl, congrArg Entry.item (h.eq_of_id_eq he he' hid.symm), ha⟩
  · rintro ⟨e, he, rfl, rfl, ha⟩
    exact ⟨e.id, ⟨e, he, rfl, ha⟩, e.item, h.find_eq_some_iff.2 ⟨e, he, rfl, rfl⟩, rfl⟩

theorem mem_line (h : r.Coherent) : item ∈ r.line ↔ ∃ e ∈ r.entries, e.item = item ∧ e.admitted = false := by
  simp only [line, List.mem_map, Prod.exists, exists_eq_right, h.mem_waiting]
  constructor
  · rintro ⟨id, e, he, -, h'⟩
    exact ⟨e, he, h'⟩
  · rintro ⟨e, he, h'⟩
    exact ⟨e.id, e, he, rfl, h'⟩

theorem map_waiting (h : r.Coherent) : r.waiting.map (·.1) = r.pending := by
  have hfound : ∀ id ∈ r.pending, ((r.find id).map (id, ·)).map (·.1) = some id := by
    intro id hid
    obtain ⟨e, he, rfl, -⟩ := (h.queued id).1 hid
    simp [h.find_eq_some_iff.2 ⟨e, he, rfl, rfl⟩]
  rw [waiting, List.map_filterMap, List.filterMap_congr hfound, List.filterMap_some]

theorem length_line (h : r.Coherent) : r.line.length = r.pendingCount := by
  rw [line, List.length_map, pendingCount, ← h.map_waiting, List.length_map]

theorem waiting_add (h : r.Coherent) (hadd : r.add id item = .ok r') : r'.waiting = r.waiting ++ [(id, item)] := by
  have hfind := find_add h hadd
  obtain ⟨hfresh, hr'⟩ := add_eq_ok_iff.1 hadd
  have hkeep : ∀ i ∈ r.pending, ((r'.find i).map (i, ·)) = (r.find i).map (i, ·) := by
    intro i hi
    obtain ⟨e, he, rfl, -⟩ := (h.queued i).1 hi
    rw [hfind, Function.update_of_ne (hfresh e he)]
  have hpending : r'.pending = r.pending ++ [id] := hr' ▸ rfl
  rw [waiting, hpending, List.filterMap_append, List.filterMap_congr hkeep]
  simp [waiting, hfind]

theorem waiting_admitNext (h : r.Coherent) :
    r.admitNext.1 = r.line.head? ∧ r.admitNext.2.waiting = r.waiting.tail ∧ r.admitNext.2.find = r.find := by
  cases hp : r.pending with
  | nil => simp [admitNext_of_nil hp, line, waiting, hp]
  | cons id rest =>
    obtain ⟨e, he, rfl, -, hnext⟩ := h.admitNext_of_cons hp
    have hfind : r.find e.id = some e.item := h.find_eq_some_iff.2 ⟨e, he, rfl, rfl⟩
    have hsame : ({ r with pending := rest }.markAdmitted e.id).find = r.find := find_markAdmitted ..
    have hwaiting : r.waiting = (e.id, e.item) :: rest.filterMap fun id => (r.find id).map (id, ·) := by
      simp [waiting, hp, hfind]
    rw [hnext]
    refine ⟨by simp [line, hwaiting], ?_, hsame⟩
    rw [hwaiting, List.tail_cons, waiting, hsame]
    rfl

theorem waiting_remove (h : r.Coherent) (he : e ∈ r.entries) :
    (r.remove e.id).2.waiting = r.waiting.filter (·.1 != e.id) := by
  have hkeep : ∀ i ∈ r.pending.filter (· != e.id),
      ((r.remove e.id).2.find i).map (i, ·) = (r.find i).map (i, ·) := by
    intro i hi
    have hne : i ≠ e.id := by simpa using (List.mem_filter.1 hi).2
    rw [find_remove, Function.update_of_ne hne]
  have hpending : (r.remove e.id).2.pending = r.pending.filter (· != e.id) := by rw [h.remove_of_mem he]
  rw [waiting, hpending, List.filterMap_congr hkeep, waiting, List.filter_filterMap, List.filterMap_filter]
  refine List.filterMap_congr fun i _ => ?_
  by_cases hi : i = e.id
  · cases hfind : r.find e.id <;> simp [hi, hfind, Option.filter]
  · cases hfind : r.find i <;> simp [hi, Option.filter]

end Coherent

/-! The book. -/

structure Book (α : Type) where
  held : UInt32 → Option α := fun _ => none
  line : List α := []

namespace Book

def add (b : Book α) (id : UInt32) (item : α) : Except Refusal (Book α) :=
  if (b.held id).isSome then .error (.taken id)
  else .ok { held := Function.update b.held id (some item), line := b.line ++ [item] }

def addGiven (b : Book α) : Option (UInt32 × α) → Except Refusal (Book α)
  | none => .error .missing
  | some (id, item) => b.add id item

def admitNext (b : Book α) : Option α × Book α := (b.line.head?, { b with line := b.line.tail })

def remove [DecidableEq α] (b : Book α) (id : UInt32) : Option α × Book α :=
  match b.held id with
  | none => (none, b)
  | some item => (some item, { held := Function.update b.held id none, line := b.line.filter (· ≠ item) })

end Book

def book (r : Registry α) : Book α := ⟨r.find, r.line⟩

@[simp] theorem book_held (r : Registry α) : r.book.held = r.find := rfl

@[simp] theorem book_line (r : Registry α) : r.book.line = r.line := rfl

@[simp] theorem book_clear (r : Registry α) : r.clear.book = {} := rfl

namespace Coherent

theorem book_of_add (h : r.Coherent) (hadd : r.add id item = .ok r') :
    r'.book = ⟨Function.update r.find id (some item), r.line ++ [item]⟩ := by
  rw [book, find_add h hadd, line, h.waiting_add hadd, List.map_append]
  rfl

theorem book_addGiven (h : r.Coherent) (given : Option (UInt32 × α)) :
    r.book.addGiven given = (r.addGiven given).map book := by
  rcases given with _ | ⟨id, item⟩
  · rfl
  · cases hc : r.contains id with
    | true => simp [Book.addGiven, Book.add, ← contains_eq, Registry.addGiven, Registry.add, hc, Except.map]
    | false =>
      have hadd := add_of_fresh item hc
      have hbook := h.book_of_add hadd
      simp [Book.addGiven, Book.add, ← contains_eq, hc, Registry.addGiven, hadd, Except.map, hbook]

theorem book_admitNext (h : r.Coherent) : r.book.admitNext = (r.admitNext.1, r.admitNext.2.book) := by
  obtain ⟨hfirst, hrest, hfind⟩ := h.waiting_admitNext
  simp [Book.admitNext, book, line, hfirst, hrest, hfind]

theorem filter_waiting [DecidableEq α] (h : r.Coherent) (hsingle : r.Single) (he : e ∈ r.entries) :
    r.waiting.filter (·.2 ≠ e.item) = r.waiting.filter (·.1 != e.id) := by
  refine List.filter_congr fun p hp => ?_
  obtain ⟨a, ha, hid, hitem, -⟩ := h.mem_waiting.1 hp
  rw [← hid, ← hitem, Bool.eq_iff_iff, decide_eq_true_iff, bne_iff_ne, not_iff_not]
  exact ⟨hsingle a ha e he, fun hid => congrArg Entry.item (h.eq_of_id_eq ha he hid)⟩

theorem book_remove [DecidableEq α] (h : r.Coherent) (hsingle : r.Single) (id : UInt32) :
    r.book.remove id = ((r.remove id).1, (r.remove id).2.book) := by
  cases hf : r.findEntry id with
  | none => simp [Book.remove, book, find, Registry.remove, hf]
  | some e =>
    obtain ⟨he, rfl⟩ := mem_of_findEntry hf
    have hfind : r.find e.id = some e.item := h.find_eq_some_iff.2 ⟨e, he, rfl, rfl⟩
    have hline : (r.remove e.id).2.line = r.line.filter (· ≠ e.item) := by
      rw [line, h.waiting_remove he, ← h.filter_waiting hsingle he, line, List.filter_map]
      rfl
    have hbook : (r.remove e.id).2.book = ⟨Function.update r.find e.id none, r.line.filter (· ≠ e.item)⟩ := by
      rw [book, find_remove, hline]
    have hanswer : (r.remove e.id).1 = some e.item := by rw [h.remove_of_mem he]
    simp [Book.remove, hfind, hbook, hanswer]

end Coherent

/-! A register that queues the items themselves. -/

structure Direct (α : Type) where
  entries : List (Entry α) := []
  pending : List (UInt32 × α) := []
  active : Nat := 0

namespace Direct

def findEntry (d : Direct α) (id : UInt32) : Option (Entry α) := d.entries.find? (·.id == id)

def addGiven (d : Direct α) : Option (UInt32 × α) → Except Refusal (Direct α)
  | none => .error .missing
  | some (id, item) =>
    if (d.findEntry id).isSome then .error (.taken id)
    else .ok { d with entries := Entry.insert { id, item } d.entries, pending := d.pending ++ [(id, item)] }

variable [DecidableEq α]

def admitFrom (d : Direct α) : List (UInt32 × α) → Option α × Direct α
  | [] => (none, { d with pending := [] })
  | (id, item) :: rest =>
    match d.findEntry id with
    | none => admitFrom d rest
    | some e =>
      if e.item = item then
        (some item, {
          entries := d.entries.map fun e => if e.id == id then { e with admitted := true } else e
          pending := rest
          active := d.active + 1 })
      else admitFrom d rest

def admitNext (d : Direct α) : Option α × Direct α := d.admitFrom d.pending

def remove (d : Direct α) (id : UInt32) : Option α × Direct α :=
  match d.findEntry id with
  | none => (none, d)
  | some e =>
    let entries := d.entries.filter fun x => x.id != id
    if e.admitted then (some e.item, { d with entries, active := d.active - 1 })
    else (some e.item, { d with entries, pending := d.pending.filter (·.2 ≠ e.item) })

end Direct

def direct (r : Registry α) : Direct α := ⟨r.entries, r.waiting, r.active⟩

@[simp] theorem direct_entries (r : Registry α) : r.direct.entries = r.entries := rfl

@[simp] theorem direct_pending (r : Registry α) : r.direct.pending = r.waiting := rfl

@[simp] theorem direct_active (r : Registry α) : r.direct.active = r.active := rfl

@[simp] theorem findEntry_direct (r : Registry α) (id : UInt32) : r.direct.findEntry id = r.findEntry id := rfl

namespace Coherent

theorem direct_of_add (h : r.Coherent) (hadd : r.add id item = .ok r') :
    r'.direct = ⟨Entry.insert { id, item } r.entries, r.waiting ++ [(id, item)], r.active⟩ := by
  rw [direct, h.waiting_add hadd, (add_eq_ok_iff.1 hadd).2]

theorem direct_addGiven (h : r.Coherent) (given : Option (UInt32 × α)) :
    r.direct.addGiven given = (r.addGiven given).map direct := by
  rcases given with _ | ⟨id, item⟩
  · rfl
  · have hfound : (r.findEntry id).isSome = r.contains id := rfl
    cases hc : r.contains id with
    | true => simp [Direct.addGiven, hfound, Registry.addGiven, Registry.add, hc, Except.map]
    | false =>
      have hadd := add_of_fresh item hc
      have hdirect := h.direct_of_add hadd
      simp [Direct.addGiven, hfound, hc, Registry.addGiven, hadd, Except.map, hdirect]

theorem direct_admitNext [DecidableEq α] (h : r.Coherent) :
    r.direct.admitNext = (r.admitNext.1, r.admitNext.2.direct) := by
  obtain ⟨-, hrest, -⟩ := h.waiting_admitNext
  cases hp : r.pending with
  | nil =>
    have hwaiting : r.waiting = [] := by simp [waiting, hp]
    simp [Direct.admitNext, Direct.admitFrom, direct, hwaiting, admitNext_of_nil hp]
  | cons id rest =>
    obtain ⟨e, he, rfl, -, hnext⟩ := h.admitNext_of_cons hp
    have hfind : r.find e.id = some e.item := h.find_eq_some_iff.2 ⟨e, he, rfl, rfl⟩
    have hentry : r.direct.findEntry e.id = some e := h.findEntry_of_mem he
    have hwaiting : r.direct.pending = (e.id, e.item) :: r.admitNext.2.waiting := by
      rw [hrest]
      simp [direct, waiting, hp, hfind]
    rw [Direct.admitNext, hwaiting, Direct.admitFrom, hentry, hnext]
    simp [direct, Registry.markAdmitted]

theorem direct_remove [DecidableEq α] (h : r.Coherent) (hsingle : r.Single) (id : UInt32) :
    r.direct.remove id = ((r.remove id).1, (r.remove id).2.direct) := by
  cases hf : r.findEntry id with
  | none => simp [Direct.remove, show r.direct.findEntry id = none from hf, Registry.remove, hf]
  | some e =>
    obtain ⟨he, rfl⟩ := mem_of_findEntry hf
    have hparts : (r.remove e.id).2.direct = ⟨r.others e.id, r.waiting.filter (·.1 != e.id),
        if e.admitted then r.active - 1 else r.active⟩ := by
      rw [direct, h.waiting_remove he, h.remove_of_mem he]
    have hanswer : (r.remove e.id).1 = some e.item := by rw [h.remove_of_mem he]
    rw [hparts, hanswer]
    simp only [Direct.remove, show r.direct.findEntry e.id = some e from hf]
    cases ha : e.admitted with
    | false => simp [direct, ← h.filter_waiting hsingle he, others]
    | true =>
      have hgone : r.waiting.filter (·.1 != e.id) = r.waiting := by
        refine List.filter_eq_self.2 fun p hp => bne_iff_ne.2 fun hid => ?_
        obtain ⟨a, hmem, hid', -, hwaits⟩ := h.mem_waiting.1 hp
        rw [h.eq_of_id_eq hmem he (hid'.trans hid), ha] at hwaits
        cases hwaits
      simp [direct, hgone, others]

end Coherent

end Multiplex.Registry

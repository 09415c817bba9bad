import Mathlib.Data.List.Basic
import Mathlib.Data.List.Nodup
import Multiplex.Registry

/-! What keeps the three parts of the register in step. The queue names exactly the entries that are not yet
admitted, and the count is the number of those that are, so that the branches of the operations for a queue that
names an unknown id are never taken. -/
namespace Multiplex.Registry

variable {α : Type}

structure Coherent (r : Registry α) : Prop where
  ascending : r.entries.Pairwise fun a b => a.id < b.id
  distinct : r.pending.Nodup
  queued : ∀ id, id ∈ r.pending ↔ ∃ e ∈ r.entries, e.id = id ∧ e.admitted = false
  counted : r.active = r.entries.countP (·.admitted)

def others (r : Registry α) (id : UInt32) : List (Entry α) := r.entries.filter (·.id != id)

theorem coherent_empty : ({} : Registry α).Coherent where
  ascending := List.Pairwise.nil
  distinct := List.nodup_nil
  queued := by simp
  counted := rfl

theorem Entry.mem_insert {e x : Entry α} {xs : List (Entry α)} : x ∈ e.insert xs ↔ x = e ∨ x ∈ xs := by
  induction xs with
  | nil => simp [Entry.insert]
  | cons y ys ih =>
    unfold Entry.insert
    split
    · simp
    · simp only [List.mem_cons, ih]
      tauto

theorem Entry.pairwise_insert {e : Entry α} {xs : List (Entry α)} (h : xs.Pairwise fun a b => a.id < b.id)
    (hne : ∀ x ∈ xs, x.id ≠ e.id) : (e.insert xs).Pairwise fun a b => a.id < b.id := by
  induction xs with
  | nil => simp [Entry.insert]
  | cons y ys ih =>
    obtain ⟨hy, hys⟩ := List.pairwise_cons.1 h
    unfold Entry.insert
    split
    · rename_i hlt
      refine List.pairwise_cons.2 ⟨?_, h⟩
      intro x hx
      rcases List.mem_cons.1 hx with rfl | hx
      · exact hlt
      · exact UInt32.lt_trans hlt (hy x hx)
    · rename_i hge
      refine List.pairwise_cons.2 ⟨?_, ih hys fun x hx => hne x (List.mem_cons_of_mem y hx)⟩
      intro x hx
      rcases Entry.mem_insert.1 hx with rfl | hx
      · exact UInt32.lt_of_le_of_ne (UInt32.not_lt.1 hge) (hne y List.mem_cons_self)
      · exact hy x hx

theorem Entry.insert_perm (e : Entry α) (xs : List (Entry α)) : (e.insert xs).Perm (e :: xs) := by
  induction xs with
  | nil => exact List.Perm.refl _
  | cons y ys ih =>
    unfold Entry.insert
    split
    · exact List.Perm.refl _
    · exact (ih.cons y).trans (List.Perm.swap e y ys)

theorem Entry.insert_eq_append {e : Entry α} {xs : List (Entry α)} (h : ∀ x ∈ xs, x.id < e.id) :
    e.insert xs = xs ++ [e] := by
  induction xs with
  | nil => rfl
  | cons y ys ih =>
    have hy : ¬e.id < y.id := UInt32.not_lt.2 (UInt32.le_of_lt (h y List.mem_cons_self))
    simp only [Entry.insert, hy, ↓reduceIte, List.cons_append]
    rw [ih fun x hx => h x (List.mem_cons_of_mem y hx)]

theorem findEntry_eq_none_iff {r : Registry α} {id : UInt32} :
    r.findEntry id = none ↔ ∀ e ∈ r.entries, e.id ≠ id := by
  simp [findEntry]

theorem mem_of_findEntry {r : Registry α} {id : UInt32} {e : Entry α} (h : r.findEntry id = some e) :
    e ∈ r.entries ∧ e.id = id := by
  refine ⟨List.mem_of_find?_eq_some h, ?_⟩
  simpa using List.find?_some h

theorem contains_eq_false_iff {r : Registry α} {id : UInt32} :
    r.contains id = false ↔ ∀ e ∈ r.entries, e.id ≠ id := by
  rw [contains, Option.isSome_eq_false_iff, Option.isNone_iff_eq_none, findEntry_eq_none_iff]

theorem add_eq_ok_iff {r r' : Registry α} {id : UInt32} {item : α} :
    r.add id item = .ok r' ↔ (∀ e ∈ r.entries, e.id ≠ id) ∧
      r' = { r with entries := Entry.insert { id, item } r.entries, pending := r.pending ++ [id] } := by
  cases hc : r.contains id with
  | false =>
    have hn : ∀ e ∈ r.entries, e.id ≠ id := contains_eq_false_iff.1 hc
    simp only [add, hc, Bool.false_eq_true, ↓reduceIte, Except.ok.injEq]
    exact ⟨fun h => ⟨hn, h.symm⟩, fun h => h.2.symm⟩
  | true =>
    have hn : ¬∀ e ∈ r.entries, e.id ≠ id := fun h => by simp [contains_eq_false_iff.2 h] at hc
    simp [add, hc, hn]

theorem admitNext_of_nil {r : Registry α} (hp : r.pending = []) : r.admitNext = (none, r) := by
  unfold admitNext
  rw [hp]
  unfold admitFrom
  rw [← hp]

def enqueue (r : Registry α) (id : UInt32) (item : α) : Registry α :=
  { r with entries := r.entries ++ [{ id, item }], pending := r.pending ++ [id] }

theorem add_of_above {r : Registry α} {id : UInt32} (item : α) (h : ∀ e ∈ r.entries, e.id < id) :
    r.add id item = .ok (r.enqueue id item) := by
  rw [add_eq_ok_iff]
  refine ⟨fun e he => UInt32.ne_of_lt (h e he), ?_⟩
  rw [Entry.insert_eq_append h]
  rfl

namespace Coherent

variable {r : Registry α} {id : UInt32} {e : Entry α}

theorem exists_split (h : r.Coherent) (he : e ∈ r.entries) :
    ∃ xs ys, r.entries = xs ++ e :: ys ∧ ∀ x ∈ xs ++ ys, x.id ≠ e.id := by
  obtain ⟨xs, ys, hs⟩ := List.append_of_mem he
  refine ⟨xs, ys, hs, ?_⟩
  have hp := h.ascending
  rw [hs] at hp
  obtain ⟨-, hy, hx⟩ := List.pairwise_append.1 hp
  intro x hmem
  rcases List.mem_append.1 hmem with hm | hm
  · exact UInt32.ne_of_lt (hx x hm e List.mem_cons_self)
  · exact (UInt32.ne_of_lt ((List.pairwise_cons.1 hy).1 x hm)).symm

theorem findEntry_of_mem (h : r.Coherent) (he : e ∈ r.entries) : r.findEntry e.id = some e := by
  obtain ⟨xs, ys, hs, hne⟩ := h.exists_split he
  have hxs : xs.find? (·.id == e.id) = none := by
    simpa using fun x hx => hne x (List.mem_append_left ys hx)
  simp [findEntry, hs, List.find?_append, hxs]

theorem eq_of_id_eq (h : r.Coherent) {a b : Entry α} (ha : a ∈ r.entries) (hb : b ∈ r.entries)
    (hid : a.id = b.id) : a = b := by
  have hfa := h.findEntry_of_mem ha
  rw [hid, h.findEntry_of_mem hb] at hfa
  exact (Option.some.inj hfa).symm

theorem active_pos (h : r.Coherent) (he : e ∈ r.entries) (ha : e.admitted = true) : 0 < r.active := by
  rw [h.counted, List.countP_pos_iff]
  exact ⟨e, he, ha⟩

theorem pending_perm (h : r.Coherent) :
    r.pending.Perm ((r.entries.filter fun e => !e.admitted).map (·.id)) := by
  have hnodup : ((r.entries.filter fun e => !e.admitted).map (·.id)).Nodup :=
    List.pairwise_map.2 ((h.ascending.filter _).imp fun hab => UInt32.ne_of_lt hab)
  refine (List.perm_ext_iff_of_nodup h.distinct hnodup).2 fun id => ?_
  rw [h.queued]
  simp only [List.mem_map, List.mem_filter, Bool.not_eq_true']
  exact ⟨fun ⟨e, he, hid, ha⟩ => ⟨e, ⟨he, ha⟩, hid⟩, fun ⟨e, ⟨he, ha⟩, hid⟩ => ⟨e, he, hid, ha⟩⟩

/-- A queue in ascending order is the list of those that wait, in the order of the entries. -/
theorem pending_eq (h : r.Coherent) (hp : r.pending.Pairwise (· < ·)) :
    r.pending = (r.entries.filter fun e => !e.admitted).map (·.id) := by
  refine h.pending_perm.eq_of_pairwise ?_ hp (List.pairwise_map.2 (h.ascending.filter _))
  intro a b _ _ hab hba
  exact absurd hba (UInt32.lt_asymm hab)

theorem size_eq (h : r.Coherent) : r.size = r.active + r.pendingCount := by
  have hlen := h.pending_perm.length_eq
  rw [List.length_map, ← List.countP_eq_length_filter] at hlen
  rw [size, pendingCount, hlen, h.counted, List.length_eq_countP_add_countP (·.admitted)]
  simp

/-! Taking in. -/

theorem add (h : r.Coherent) {item : α} {r' : Registry α} (hadd : r.add id item = .ok r') :
    r'.Coherent := by
  obtain ⟨hfresh, rfl⟩ := add_eq_ok_iff.1 hadd
  have hmem : ∀ x, x ∈ Entry.insert { id, item } r.entries ↔ x = { id, item } ∨ x ∈ r.entries :=
    fun x => Entry.mem_insert
  refine ⟨Entry.pairwise_insert h.ascending hfresh, ?_, ?_, ?_⟩
  · refine List.nodup_append.2 ⟨h.distinct, List.nodup_singleton id, ?_⟩
    rintro a ha b hb rfl
    obtain ⟨e, he, hid, -⟩ := (h.queued a).1 ha
    exact hfresh e he (hid.trans (List.mem_singleton.1 hb))
  · intro x
    simp only [List.mem_append, List.mem_singleton, h.queued, hmem]
    constructor
    · rintro (⟨e, he, hx⟩ | rfl)
      · exact ⟨e, Or.inr he, hx⟩
      · exact ⟨_, Or.inl rfl, rfl, rfl⟩
    · rintro ⟨e, rfl | he, hx⟩
      · exact Or.inr hx.1.symm
      · exact Or.inl ⟨e, he, hx⟩
  · rw [(Entry.insert_perm _ _).countP_eq, List.countP_cons_of_neg (by simp)]
    exact h.counted

/-! Admitting. -/

/-- The head of the queue is always registered, so admission never skips. -/
theorem admitNext_of_cons (h : r.Coherent) {rest : List UInt32} (hp : r.pending = id :: rest) :
    ∃ e ∈ r.entries, e.id = id ∧ e.admitted = false ∧
      r.admitNext = (some e.item, { r with pending := rest }.markAdmitted id) := by
  obtain ⟨e, he, hid, ha⟩ := (h.queued id).1 (hp ▸ List.mem_cons_self)
  refine ⟨e, he, hid, ha, ?_⟩
  have hfind : r.find id = some e.item := by
    rw [find, ← hid, h.findEntry_of_mem he, Option.map_some]
  simp only [admitNext, hp, admitFrom, hfind]

end Coherent

theorem mem_of_remove {r r' : Registry α} {id : UInt32} {item : α} (h : r.remove id = (some item, r')) :
    ∃ e ∈ r.entries, e.id = id ∧ e.item = item := by
  unfold remove at h
  split at h
  · cases h
  · rename_i e he
    obtain ⟨hmem, hid⟩ := mem_of_findEntry he
    refine ⟨e, hmem, hid, ?_⟩
    dsimp only at h
    split at h
    · exact Option.some.inj (congrArg (·.1) h)
    · exact Option.some.inj (congrArg (·.1) h)

theorem ne_of_remove {r r' : Registry α} {id : UInt32} (h : r.remove id = (none, r')) : ∀ e ∈ r.entries, e.id ≠ id := by
  unfold remove at h
  split at h
  · rename_i hfind
    exact findEntry_eq_none_iff.1 hfind
  · dsimp only at h
    split at h <;> cases h

theorem active_remove_le (r : Registry α) (id : UInt32) : (r.remove id).2.active ≤ r.active := by
  unfold remove
  split
  · exact Nat.le_refl _
  · dsimp only
    split
    · exact Nat.sub_le _ _
    · exact Nat.le_refl _

theorem pendingCount_remove_le (r : Registry α) (id : UInt32) : (r.remove id).2.pendingCount ≤ r.pendingCount := by
  unfold remove
  split
  · exact Nat.le_refl _
  · dsimp only
    split
    · exact Nat.le_refl _
    · exact List.length_filter_le _ _

theorem map_around {xs ys : List (Entry α)} {e : Entry α} {p : Entry α → Bool} (f : Entry α → Entry α)
    (he : p e = true) (hne : ∀ x ∈ xs ++ ys, p x = false) :
    (xs ++ e :: ys).map (fun x => if p x then f x else x) = xs ++ f e :: ys := by
  have hkeep : ∀ zs : List (Entry α), (∀ z ∈ zs, p z = false) →
      zs.map (fun x => if p x then f x else x) = zs := by
    intro zs hz
    refine (List.map_congr_left fun z hm => ?_).trans (List.map_id' zs)
    rw [hz z hm]
    rfl
  rw [List.map_append, List.map_cons, if_pos he, hkeep xs fun x hx => hne x (List.mem_append_left ys hx),
    hkeep ys fun y hy => hne y (List.mem_append_right xs hy)]

namespace Coherent

variable {r : Registry α} {id : UInt32} {e : Entry α}

theorem entries_markAdmitted {xs ys : List (Entry α)} (hs : r.entries = xs ++ e :: ys)
    (hne : ∀ x ∈ xs ++ ys, x.id ≠ e.id) :
    (r.markAdmitted e.id).entries = xs ++ { e with admitted := true } :: ys := by
  unfold markAdmitted
  rw [hs]
  exact map_around (fun x => { x with admitted := true }) (by simp) (by simpa using hne)

theorem markAdmitted (h : r.Coherent) {rest : List UInt32} (hp : r.pending = id :: rest) :
    ({ r with pending := rest }.markAdmitted id).Coherent := by
  obtain ⟨e, he, rfl, ha⟩ := (h.queued id).1 (hp ▸ List.mem_cons_self)
  obtain ⟨xs, ys, hs, hne⟩ := h.exists_split he
  have hentries : ({ r with pending := rest }.markAdmitted e.id).entries =
      xs ++ { e with admitted := true } :: ys := entries_markAdmitted hs hne
  have hnodup := h.distinct
  rw [hp, List.nodup_cons] at hnodup
  refine ⟨?_, hnodup.2, ?_, ?_⟩
  · have hids : (xs ++ { e with admitted := true } :: ys).map (·.id) = r.entries.map (·.id) := by
      simp [hs]
    rw [hentries]
    have hp := List.pairwise_map.2 h.ascending
    rw [← hids] at hp
    exact List.pairwise_map.1 hp
  · intro x
    change x ∈ rest ↔ _
    have hx : x ∈ rest ↔ x ∈ r.pending ∧ x ≠ e.id := by
      rw [hp, List.mem_cons]
      constructor
      · exact fun hm => ⟨Or.inr hm, fun heq => hnodup.1 (heq ▸ hm)⟩
      · exact fun ⟨hm, hn⟩ => hm.resolve_left hn
    rw [hx, h.queued, hentries, hs]
    simp only [List.perm_middle.mem_iff, List.mem_cons]
    constructor
    · rintro ⟨⟨z, rfl | hz, rfl, hza⟩, hn⟩
      · exact absurd rfl hn
      · exact ⟨z, Or.inr hz, rfl, hza⟩
    · rintro ⟨z, rfl | hz, rfl, hza⟩
      · simp at hza
      · exact ⟨⟨z, Or.inr hz, rfl, hza⟩, hne z hz⟩
  · rw [hentries]
    change r.active + 1 = _
    rw [h.counted, hs]
    simp [List.countP_append, ha]
    omega

theorem admitNext (h : r.Coherent) : r.admitNext.2.Coherent := by
  cases hp : r.pending with
  | nil =>
    rw [admitNext_of_nil hp]
    exact h
  | cons id rest =>
    obtain ⟨e, -, -, -, hnext⟩ := h.admitNext_of_cons hp
    rw [hnext]
    exact h.markAdmitted hp

/-! Taking out. -/

theorem others_eq {xs ys : List (Entry α)} (hs : r.entries = xs ++ e :: ys)
    (hne : ∀ x ∈ xs ++ ys, x.id ≠ e.id) : r.others e.id = xs ++ ys := by
  have hkeep : (xs ++ ys).filter (fun x => x.id != e.id) = xs ++ ys :=
    List.filter_eq_self.2 fun x hx => by simpa using hne x hx
  rw [List.filter_append] at hkeep
  simp [others, hs, List.filter_append, hkeep]

theorem perm_others (h : r.Coherent) (he : e ∈ r.entries) : r.entries.Perm (e :: r.others e.id) := by
  obtain ⟨xs, ys, hs, hne⟩ := h.exists_split he
  rw [others_eq hs hne, hs]
  exact List.perm_middle

theorem remove_of_mem (h : r.Coherent) (he : e ∈ r.entries) :
    r.remove e.id = (some e.item,
      { entries := r.others e.id
        pending := r.pending.filter (· != e.id)
        active := if e.admitted then r.active - 1 else r.active }) := by
  simp only [Registry.remove, h.findEntry_of_mem he]
  cases ha : e.admitted with
  | false => rfl
  | true =>
    have hkeep : r.pending.filter (· != e.id) = r.pending := by
      refine List.filter_eq_self.2 fun x hx => bne_iff_ne.2 ?_
      rintro rfl
      obtain ⟨z, hz, hid, hza⟩ := (h.queued e.id).1 hx
      rw [h.eq_of_id_eq hz he hid, ha] at hza
      exact Bool.noConfusion hza
    simp only [↓reduceIte, hkeep]
    rfl

theorem remove (h : r.Coherent) (id : UInt32) : (r.remove id).2.Coherent := by
  cases hf : r.findEntry id with
  | none =>
    simp only [Registry.remove, hf]
    exact h
  | some e =>
    obtain ⟨he, rfl⟩ := mem_of_findEntry hf
    rw [h.remove_of_mem he]
    have hperm := h.perm_others he
    refine ⟨h.ascending.filter _, h.distinct.filter _, ?_, ?_⟩
    · intro x
      simp only [List.mem_filter, bne_iff_ne, h.queued, others]
      constructor
      · rintro ⟨⟨z, hz, rfl, hza⟩, hn⟩
        exact ⟨z, ⟨hz, hn⟩, rfl, hza⟩
      · rintro ⟨z, ⟨hz, hn⟩, rfl, hza⟩
        exact ⟨⟨z, hz, rfl, hza⟩, hn⟩
    · have hcount := h.counted
      rw [hperm.countP_eq, List.countP_cons] at hcount
      change (if e.admitted then r.active - 1 else r.active) = _
      split
      · rename_i ha
        rw [hcount, if_pos ha]
        rfl
      · rename_i ha
        rw [hcount, if_neg ha]
        rfl

/-! Changing an item. -/

theorem replace (h : r.Coherent) (p : α → Bool) (item : α) : (r.replace p item).Coherent := by
  have hid : ∀ x : Entry α, (if p x.item then { x with item } else x).id = x.id := by
    intro x
    split <;> rfl
  have hadm : ∀ x : Entry α, (if p x.item then { x with item } else x).admitted = x.admitted := by
    intro x
    split <;> rfl
  refine ⟨?_, h.distinct, ?_, ?_⟩
  · exact List.pairwise_map.2 (h.ascending.imp fun hab => by rwa [hid, hid])
  · intro x
    change x ∈ r.pending ↔ _
    simp only [h.queued, Registry.replace, List.mem_map, exists_exists_and_eq_and, hid, hadm]
  · change r.active = _
    simp only [h.counted, Registry.replace, List.countP_map]
    exact List.countP_congr fun x _ => by simp [hadm]

theorem remove_replace (h : r.Coherent) (he : e ∈ r.entries) {p : α → Bool}
    (hp : ∀ x ∈ r.entries, p x.item = true ↔ x.id = e.id) (item : α) :
    (r.replace p item).remove e.id = (some item, (r.remove e.id).2) := by
  have hmem : ({ e with item } : Entry α) ∈ (r.replace p item).entries := by
    refine List.mem_map.2 ⟨e, he, ?_⟩
    rw [if_pos ((hp e he).2 rfl)]
  have hothers : (r.replace p item).others e.id = r.others e.id := by
    have hkeep : ∀ x ∈ r.others e.id, (if p x.item then { x with item } else x) = x := by
      intro x hx
      obtain ⟨hx, hne⟩ := List.mem_filter.1 hx
      rw [if_neg fun hpx => bne_iff_ne.1 hne ((hp x hx).1 hpx)]
    have hid : ((fun x : Entry α => x.id != e.id) ∘ fun x => if p x.item then { x with item } else x) =
        fun x => x.id != e.id := by
      funext x
      simp only [Function.comp_apply]
      split <;> rfl
    rw [others, Registry.replace, List.filter_map, hid]
    exact (List.map_congr_left hkeep).trans (List.map_id' _)
  have hnew := (h.replace p item).remove_of_mem hmem
  rw [h.remove_of_mem he]
  exact hnew.trans (by rw [hothers]; rfl)

end Coherent

end Multiplex.Registry

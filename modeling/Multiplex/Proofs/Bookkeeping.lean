import Mathlib.Data.List.Induction
import Multiplex.Proofs.Book
import Multiplex.Scenario.Register

/-! What a register does over any sequence of calls. Its calls and answers are those of a map from ids to items with a
line of the items that wait, and where an item stands can be told from the calls and answers alone. -/
namespace Multiplex.Scenario.Register

open Multiplex.Registry (Book Single)

abbrev Trace := List (Step × Answer)

inductive Run : Trace → State → Prop
  | start : Run [] {}
  | step {trace : Trace} {s : State} (h : Run trace s) (step : Step) :
      Run ((step, (perform step s).1) :: trace) (perform step s).2

def alters : Step × Answer → Bool
  | (.add _ _, .done) | (.admitNext, .label (some _)) | (.remove _, .label (some _)) | (.clear, _) => true
  | _ => false

inductive Place where
  | out
  | waiting (since : Nat)
  | admitted

def place (label : Bytes) : Trace → Place
  | [] => .out
  | (.add (some l) _, .done) :: trace => if l = label then .waiting trace.length else place label trace
  | (.admitNext, .label (some l)) :: trace => if l = label then .admitted else place label trace
  | (.remove _, .label (some l)) :: trace => if l = label then .out else place label trace
  | (.clear, _) :: _ => .out
  | _ :: trace => place label trace

/-- How a book answers a call and what becomes of it, where `own` is the id of the item of a label. -/
inductive Does (own : Bytes → UInt32) (b : Book Bytes) : Step → Answer → Book Bytes → Prop
  | refused {label : Option Bytes} {id : UInt32} {refusal : Registry.Refusal}
      (h : b.addGiven (label.map fun l => (own l, l)) = .error refusal) :
      Does own b (.add label id) (.refused refusal.fault) b
  | added {label : Option Bytes} {id : UInt32} {b' : Book Bytes}
      (h : b.addGiven (label.map fun l => (own l, l)) = .ok b') : Does own b (.add label id) .done b'
  | admitted : Does own b .admitNext (.label b.admitNext.1) b.admitNext.2
  | removed (id : UInt32) : Does own b (.remove id) (.label (b.remove id).1) (b.remove id).2
  | found (id : UInt32) : Does own b (.find id) (.label (b.held id)) b
  | contained (id : UInt32) : Does own b (.contains id) (.flag (b.held id).isSome) b
  | listed {ids : List UInt32} {labels : List Bytes} (hids : ids.Pairwise (· < ·))
      (hall : ∀ id, id ∈ ids ↔ (b.held id).isSome = true) (hlabels : ids.map b.held = labels.map some) :
      Does own b .snapshot (.labels labels) b
  | cleared : Does own b .clear .nothing {}

inductive Kept (own : Bytes → UInt32) : Trace → Book Bytes → Prop
  | start : Kept own [] {}
  | step {trace : Trace} {b b' : Book Bytes} {step : Step} {answer : Answer} (h : Kept own trace b)
      (hdoes : Does own b step answer b') : Kept own ((step, answer) :: trace) b'

variable {own : Bytes → UInt32} {trace : Trace} {b b' : Book Bytes} {step : Step} {answer : Answer} {s : State}
  {label : Bytes}

/-! Where the items of a book stand. -/

/-- A book holds whoever is not out, and its line names those that wait, in the order in which they came. -/
structure Placed (own : Bytes → UInt32) (trace : Trace) (b : Book Bytes) : Prop where
  owned : ∀ id label, b.held id = some label → own label = id
  held : ∀ label, b.held (own label) = some label ↔ place label trace ≠ .out
  line : ∀ label, label ∈ b.line ↔ ∃ n, place label trace = .waiting n
  ordered : b.line.Pairwise fun x y => ∃ m n, place x trace = .waiting m ∧ place y trace = .waiting n ∧ m < n
  bounded : ∀ label n, place label trace = .waiting n → n < trace.length

namespace Placed

theorem start : Placed own [] {} where
  owned := by simp
  held := by simp [place]
  line := by simp [place]
  ordered := List.Pairwise.nil
  bounded := by simp [place]

theorem nodup (h : Placed own trace b) : b.line.Nodup := by
  refine h.ordered.imp ?_
  rintro x y ⟨m, n, hm, hn, hlt⟩ rfl
  rw [hm] at hn
  cases hn
  exact Nat.lt_irrefl m hlt

theorem same (h : Placed own trace b) (hplace : ∀ label, place label ((step, answer) :: trace) = place label trace) :
    Placed own ((step, answer) :: trace) b where
  owned := h.owned
  held := by simpa only [hplace] using h.held
  line := by simpa only [hplace] using h.line
  ordered := by simpa only [hplace] using h.ordered
  bounded := by
    intro label n hn
    rw [hplace] at hn
    exact Nat.lt_succ_of_lt (h.bounded label n hn)

section Moved

variable {e : Step × Answer}

theorem ordered_cons (h : Placed own trace b) (hold : ∀ l, l ≠ label → place l (e :: trace) = place l trace)
    {line : List Bytes} (hline : line.Sublist b.line) (hnone : label ∉ line) :
    line.Pairwise fun x y => ∃ m n, place x (e :: trace) = .waiting m ∧ place y (e :: trace) = .waiting n ∧ m < n := by
  refine (h.ordered.sublist hline).imp_of_mem fun {x y} hx hy hxy => ?_
  rwa [hold x fun heq => hnone (heq ▸ hx), hold y fun heq => hnone (heq ▸ hy)]

theorem bounded_cons (h : Placed own trace b) (hold : ∀ l, l ≠ label → place l (e :: trace) = place l trace)
    (hnew : ∀ n, place label (e :: trace) = .waiting n → n = trace.length) (l : Bytes) (n : Nat)
    (hn : place l (e :: trace) = .waiting n) : n < (e :: trace).length := by
  rw [List.length_cons]
  by_cases hl : l = label
  · subst hl
    have hlast := hnew n hn
    omega
  · rw [hold l hl] at hn
    have hearlier := h.bounded l n hn
    omega

end Moved

theorem added (h : Placed own trace b) {id : UInt32} (hfree : b.held (own label) = none) :
    Placed own ((.add (some label) id, .done) :: trace)
      ⟨Function.update b.held (own label) (some label), b.line ++ [label]⟩ := by
  have hnew : place label ((.add (some label) id, .done) :: trace) = .waiting trace.length := by simp [place]
  have hold : ∀ l, l ≠ label → place l ((.add (some label) id, .done) :: trace) = place l trace := by
    intro l hl
    simp [place, hl.symm]
  have hout : place label trace = .out := by
    by_contra hin
    rw [← ne_eq, ← h.held, hfree] at hin
    cases hin
  have hnone : label ∉ b.line := by simp [h.line, hout]
  constructor
  case owned =>
    intro i l hl
    by_cases hi : i = own label
    · simp only [hi, Function.update_self] at hl
      cases hl
      exact hi.symm
    · simp only [Function.update_of_ne hi] at hl
      exact h.owned i l hl
  case held =>
    intro l
    by_cases hl : l = label
    · simp [hl, hnew]
    · rw [hold l hl, ← h.held]
      by_cases hid : own l = own label
      · simp [hid, hfree, Ne.symm hl]
      · simp only [Function.update_of_ne hid]
  case line =>
    intro l
    by_cases hl : l = label
    · simp [hl, hnew]
    · simp [hold l hl, ← h.line, hl]
  case ordered =>
    refine List.pairwise_append.2
      ⟨h.ordered_cons hold (List.Sublist.refl _) hnone, List.pairwise_singleton _ label, ?_⟩
    intro x hx y hy
    obtain ⟨n, hn⟩ := (h.line x).1 hx
    obtain rfl := List.mem_singleton.1 hy
    exact ⟨n, trace.length, (hold x fun heq => hnone (heq ▸ hx)).trans hn, hnew, h.bounded x n hn⟩
  case bounded =>
    refine h.bounded_cons hold fun n hn => ?_
    rw [hnew] at hn
    exact (Place.waiting.inj hn).symm

theorem admitted (h : Placed own trace b) {rest : List Bytes} (hline : b.line = label :: rest) :
    Placed own ((.admitNext, .label (some label)) :: trace) { b with line := rest } := by
  have hnew : place label ((.admitNext, .label (some label)) :: trace) = .admitted := by simp [place]
  have hold : ∀ l, l ≠ label → place l ((.admitNext, .label (some label)) :: trace) = place l trace := by
    intro l hl
    simp [place, hl.symm]
  obtain ⟨n, hwaits⟩ := (h.line label).1 (hline ▸ List.mem_cons_self)
  have hnone : label ∉ rest := by
    have hnodup := h.nodup
    rw [hline] at hnodup
    exact (List.nodup_cons.1 hnodup).1
  constructor
  case owned => exact h.owned
  case held =>
    intro l
    by_cases hl : l = label
    · simp [hl, hnew, h.held, hwaits]
    · rw [hold l hl, ← h.held]
  case line =>
    intro l
    by_cases hl : l = label
    · simp [hl, hnew, hnone]
    · rw [hold l hl, ← h.line, hline]
      simp [hl]
  case ordered => exact h.ordered_cons hold (hline ▸ List.sublist_cons_self label rest) hnone
  case bounded => exact h.bounded_cons hold fun n hn => by simp [hnew] at hn

theorem removed (h : Placed own trace b) {id : UInt32} (hheld : b.held id = some label) :
    Placed own ((.remove id, .label (some label)) :: trace)
      ⟨Function.update b.held id none, b.line.filter (· ≠ label)⟩ := by
  have hnew : place label ((.remove id, .label (some label)) :: trace) = .out := by simp [place]
  have hold : ∀ l, l ≠ label → place l ((.remove id, .label (some label)) :: trace) = place l trace := by
    intro l hl
    simp [place, hl.symm]
  obtain rfl := h.owned id label hheld
  constructor
  case owned =>
    intro i l hl
    by_cases hi : i = own label
    · simp [hi] at hl
    · simp only [Function.update_of_ne hi] at hl
      exact h.owned i l hl
  case held =>
    intro l
    by_cases hl : l = label
    · simp [hl, hnew]
    · rw [hold l hl, ← h.held]
      by_cases hid : own l = own label
      · simp [hid, hheld, Ne.symm hl]
      · simp only [Function.update_of_ne hid]
  case line =>
    intro l
    by_cases hl : l = label
    · simp [hl, hnew]
    · simp [hold l hl, ← h.line, hl]
  case ordered => exact h.ordered_cons hold List.filter_sublist (by simp)
  case bounded => exact h.bounded_cons hold fun n hn => by simp [hnew] at hn

theorem cleared : Placed own ((.clear, .nothing) :: trace) {} where
  owned := by simp
  held := by simp [place]
  line := by simp [place]
  ordered := List.Pairwise.nil
  bounded := by simp [place]

theorem does (h : Placed own trace b) (hdoes : Does own b step answer b') :
    Placed own ((step, answer) :: trace) b' := by
  cases hdoes with
  | @refused given id refusal hadd => exact h.same fun _ => by cases given <;> rfl
  | @added given id _ hadd =>
    rcases given with _ | x
    · cases hadd
    · cases hheld : b.held (own x) with
      | none =>
        simp only [Option.map_some, Book.addGiven, Book.add, hheld] at hadd
        cases hadd
        exact h.added hheld
      | some other => simp [Book.addGiven, Book.add, hheld] at hadd
  | admitted =>
    cases hline : b.line with
    | nil =>
      have hsame : b.admitNext = (none, b) := by
        cases b
        simp_all [Book.admitNext]
      rw [hsame]
      exact h.same fun _ => rfl
    | cons x rest =>
      have hnext : b.admitNext = (some x, { b with line := rest }) := by simp [Book.admitNext, hline]
      rw [hnext]
      exact h.admitted hline
  | removed id =>
    cases hheld : b.held id with
    | none =>
      simp only [Book.remove, hheld]
      exact h.same fun _ => rfl
    | some x =>
      simp only [Book.remove, hheld]
      exact h.removed hheld
  | found id => exact h.same fun _ => rfl
  | contained id => exact h.same fun _ => rfl
  | listed => exact h.same fun _ => rfl
  | cleared => exact cleared

end Placed

theorem Kept.placed (h : Kept own trace b) : Placed own trace b := by
  induction h with
  | start => exact .start
  | step _ hdoes ih => exact ih.does hdoes

/-! Nobody is admitted who was taken out. -/

theorem place_cons {p : Step × Answer} {n : Nat} (h : place label (p :: trace) = .waiting n) :
    (∃ id, p = (.add (some label) id, .done)) ∨ place label trace = .waiting n := by
  unfold place at h
  split at h
  · contradiction
  · rename_i l id _ heq
    cases heq
    by_cases hl : l = label
    · exact .inl ⟨id, by rw [hl]⟩
    · exact .inr (by simpa [hl] using h)
  · rename_i heq
    cases heq
    split at h
    · cases h
    · exact .inr h
  · rename_i heq
    cases heq
    split at h
    · cases h
    · exact .inr h
  · cases h
  · rename_i heq
    cases heq
    exact .inr h

theorem place_append {earlier : Trace} (hout : ∀ n, place label earlier ≠ .waiting n) (later : Trace)
    (hno : ∀ id, (.add (some label) id, .done) ∉ later) (n : Nat) : place label (later ++ earlier) ≠ .waiting n := by
  induction later with
  | nil => exact hout n
  | cons p later ih =>
    have hrest := ih fun id hmem => hno id (List.mem_cons_of_mem p hmem)
    intro hwaits
    rcases place_cons hwaits with ⟨id, rfl⟩ | hwaits
    · exact hno id List.mem_cons_self
    · exact hrest hwaits

theorem Kept.not_admitted {earlier : Trace} (hout : ∀ n, place label earlier ≠ .waiting n) {later : Trace}
    (h : Kept own (later ++ earlier) b) (hno : ∀ id, (.add (some label) id, .done) ∉ later) :
    (.admitNext, .label (some label)) ∉ later := by
  induction later generalizing b with
  | nil => simp
  | cons p later ih =>
    have hrest : ∀ id, (.add (some label) id, .done) ∉ later := fun id hmem => hno id (List.mem_cons_of_mem p hmem)
    cases h with
    | @step _ b₀ _ _ _ hkept hdoes =>
      intro hmem
      rcases List.mem_cons.1 hmem with heq | hmem
      · cases heq
        generalize hanswer : Answer.label (some label) = answer at hdoes
        cases hdoes
        have hfirst : b₀.line.head? = some label := by
          simpa [Book.admitNext, eq_comm] using hanswer
        obtain ⟨n, hn⟩ := (hkept.placed.line label).1 (List.mem_of_mem_head? hfirst)
        exact place_append hout later hrest n hn
      · exact ih hkept hrest hmem

/-! The register is such a book. -/

def idOf (ids : List (Bytes × UInt32)) (label : Bytes) : Option UInt32 := (ids.find? (·.1 == label)).map (·.2)

def Agrees (own : Bytes → UInt32) (ids : List (Bytes × UInt32)) : Prop :=
  ∀ label id, idOf ids label = some id → own label = id

theorem identify_spec (label : Bytes) (id : UInt32) (s : State) :
    (identify label id s).2.registry = s.registry ∧
    idOf (identify label id s).2.ids label = some (identify label id s).1 ∧
    ∀ l i, idOf s.ids l = some i → idOf (identify label id s).2.ids l = some i := by
  unfold identify
  cases hfind : s.ids.find? (·.1 == label) with
  | some p => simp [idOf, hfind]
  | none =>
    refine ⟨rfl, by simp [idOf], fun l i hl => ?_⟩
    have hne : l ≠ label := by
      rintro rfl
      simp [idOf, hfind] at hl
    simpa [idOf, hne.symm] using hl

theorem perform_add (label : Bytes) (id : UInt32) (s : State) :
    (perform (.add (some label) id) s).2.ids = (identify label id s).2.ids ∧
    match s.registry.add (identify label id s).1 label with
    | .ok registry =>
      (perform (.add (some label) id) s).1 = .done ∧ (perform (.add (some label) id) s).2.registry = registry
    | .error refusal => (perform (.add (some label) id) s).1 = .refused refusal.fault ∧
        (perform (.add (some label) id) s).2.registry = s.registry := by
  obtain ⟨hregistry, -⟩ := identify_spec label id s
  rw [perform, add]
  simp only [Registry.addGiven, hregistry]
  cases s.registry.add (identify label id s).1 label with
  | ok registry => simp
  | error refusal => cases refusal <;> simp [Registry.Refusal.warning, hregistry]

theorem single_of_owned (h : s.registry.Coherent)
    (howned : ∀ id label, s.registry.find id = some label → own label = id) : s.registry.Single := by
  intro x hx y hy heq
  have hx' := howned x.id x.item (h.find_eq_some_iff.2 ⟨x, hx, rfl, rfl⟩)
  have hy' := howned y.id y.item (h.find_eq_some_iff.2 ⟨y, hy, rfl, rfl⟩)
  rw [← hx', ← hy', heq]

theorem listing (h : s.registry.Coherent) : (s.registry.entries.map (·.id)).Pairwise (· < ·) ∧
    (∀ id, id ∈ s.registry.entries.map (·.id) ↔ (s.registry.find id).isSome = true) ∧
    (s.registry.entries.map (·.id)).map s.registry.find = s.registry.snapshot.map some := by
  refine ⟨List.pairwise_map.2 h.ascending, fun id => ?_, ?_⟩
  · simp [Option.isSome_iff_exists, h.find_eq_some_iff]
  · rw [Registry.snapshot, List.map_map, List.map_map]
    exact List.map_congr_left fun e he => h.find_eq_some_iff.2 ⟨e, he, rfl, rfl⟩

/-- One call does to the register what it does to the book. -/
theorem does_perform (h : s.registry.Coherent) (hsingle : s.registry.Single) (step : Step)
    (hown : Agrees own (perform step s).2.ids) : Agrees own s.ids ∧ (perform step s).2.registry.Coherent ∧
      Does own s.registry.book step (perform step s).1 (perform step s).2.registry.book := by
  cases step with
  | add given id =>
    have hbook := h.book_addGiven (given.map fun l => (own l, l))
    cases given with
    | none => exact ⟨hown, h, .refused hbook⟩
    | some l =>
      obtain ⟨-, hid, hids⟩ := identify_spec l id s
      obtain ⟨hkeep, hadd⟩ := perform_add l id s
      rw [hkeep] at hown
      rw [← hown l _ hid] at hadd
      simp only [Option.map_some, Registry.addGiven] at hbook
      refine ⟨fun l i hi => hown l i (hids l i hi), ?_⟩
      cases hgiven : s.registry.add (own l) l with
      | ok registry =>
        rw [hgiven] at hadd hbook
        rw [hadd.1, hadd.2]
        exact ⟨h.add hgiven, .added hbook⟩
      | error refusal =>
        rw [hgiven] at hadd hbook
        rw [hadd.1, hadd.2]
        exact ⟨h, .refused hbook⟩
  | admitNext =>
    have hdoes : Does own s.registry.book .admitNext (.label s.registry.book.admitNext.1) s.registry.book.admitNext.2 :=
      .admitted
    rw [h.book_admitNext] at hdoes
    exact ⟨hown, h.admitNext, hdoes⟩
  | remove id =>
    have hdoes : Does own s.registry.book (.remove id) (.label (s.registry.book.remove id).1)
        (s.registry.book.remove id).2 := .removed id
    rw [h.book_remove hsingle] at hdoes
    exact ⟨hown, h.remove id, hdoes⟩
  | find id => exact ⟨hown, h, .found id⟩
  | contains id =>
    have hanswer : (perform (.contains id) s).1 = .flag (s.registry.find id).isSome := by
      rw [← Registry.contains_eq]
      rfl
    rw [hanswer]
    exact ⟨hown, h, .contained id⟩
  | snapshot =>
    obtain ⟨hids, hall, hlabels⟩ := listing h
    exact ⟨hown, h, .listed hids hall hlabels⟩
  | clear => exact ⟨hown, Registry.coherent_empty, .cleared⟩

theorem exists_agrees (ids : List (Bytes × UInt32)) : ∃ own, Agrees own ids :=
  ⟨fun label => (idOf ids label).getD 0, fun label id h => by simp [h]⟩

/-- A run of the register is a run of its book. -/
theorem Run.kept (h : Run trace s) :
    s.registry.Coherent ∧ ∀ own, Agrees own s.ids → Kept own trace s.registry.book := by
  induction h with
  | start => exact ⟨Registry.coherent_empty, fun _ _ => .start⟩
  | @step trace s hrun step ih =>
    obtain ⟨hcoherent, hkept⟩ := ih
    -- The register alone does not tell that an item has one id only; the book it was kept by does.
    have hsingle : s.registry.Single := by
      obtain ⟨own, hown⟩ := exists_agrees s.ids
      exact single_of_owned hcoherent (hkept own hown).placed.owned
    constructor
    · obtain ⟨own, hown⟩ := exists_agrees (perform step s).2.ids
      exact (does_perform hcoherent hsingle step hown).2.1
    · intro own hown
      obtain ⟨hsame, -, hdoes⟩ := does_perform hcoherent hsingle step hown
      exact (hkept own hsame).step hdoes

theorem unaltered (h : s.registry.Coherent) (step : Step) (hanswer : alters (step, (perform step s).1) = false) :
    (perform step s).2.registry = s.registry := by
  cases step with
  | add given id =>
    cases given with
    | none => rfl
    | some l =>
      have hadd := (perform_add l id s).2
      split at hadd
      · rw [hadd.1] at hanswer
        cases hanswer
      · exact hadd.2
  | admitNext =>
    cases hp : s.registry.pending with
    | nil => exact congrArg Prod.snd (Registry.admitNext_of_nil hp)
    | cons id rest =>
      obtain ⟨e, -, -, -, hnext⟩ := h.admitNext_of_cons hp
      simp [perform, hnext, alters] at hanswer
  | remove id =>
    cases hremove : (s.registry.remove id).1 with
    | none => exact Registry.remove_eq_self_of_none hremove
    | some l => simp [perform, hremove, alters] at hanswer
  | find id => rfl
  | contains id => rfl
  | snapshot => rfl
  | clear => cases hanswer

structure Standing (trace : Trace) (s : State) : Prop where
  /-- Its answers, and what became of it, are those of a map and a line. -/
  kept : ∃ own, Agrees own s.ids ∧ Kept own trace s.registry.book
  unique : s.registry.entries.Pairwise fun a b => a.id < b.id
  /-- In the line is who is registered and not admitted, each once, in the order in which they were last taken in. -/
  waits : ∀ label, label ∈ s.registry.line ↔ ∃ e ∈ s.registry.entries, e.item = label ∧ e.admitted = false
  once : s.registry.line.Nodup
  ordered : s.registry.line.Pairwise fun x y => ∃ m n, place x trace = .waiting m ∧ place y trace = .waiting n ∧ m < n
  /-- The entries are where the answers put them. -/
  registered : ∀ label, (∃ e ∈ s.registry.entries, e.item = label) ↔ place label trace ≠ .out
  admitted : ∀ e ∈ s.registry.entries, e.admitted = true ↔ place e.item trace = .admitted
  pendingCount : s.registry.pendingCount = s.registry.line.length
  size : s.registry.size = s.registry.pendingCount + s.registry.active
  active : s.registry.active = s.registry.entries.countP (·.admitted)
  first : (perform .admitNext s).1 = .label s.registry.line.head?
  listed : ∃ (labels : List Bytes) (ids : List UInt32), (perform .snapshot s).1 = .labels labels ∧
    ids.Pairwise (· < ·) ∧ ids.map s.registry.find = labels.map some ∧
    ∀ id, id ∈ ids ↔ (s.registry.find id).isSome = true
  unaltered : ∀ step, alters (step, (perform step s).1) = false → (perform step s).2.registry = s.registry
  /-- Who was taken out is not admitted before being taken in again. -/
  departed : ∀ later earlier label id, trace = later ++ (.remove id, .label (some label)) :: earlier →
    (∀ id, (.add (some label) id, .done) ∉ later) → (.admitNext, .label (some label)) ∉ later
  /-- With the items themselves in the queue every call would do the same. -/
  direct : (∀ given, s.registry.direct.addGiven given = (s.registry.addGiven given).map Registry.direct) ∧
    s.registry.direct.admitNext = (s.registry.admitNext.1, s.registry.admitNext.2.direct) ∧
    ∀ id, s.registry.direct.remove id = ((s.registry.remove id).1, (s.registry.remove id).2.direct)

theorem Placed.entries (h : Placed own trace s.registry.book) (hcoherent : s.registry.Coherent) :
    (∀ label, (∃ e ∈ s.registry.entries, e.item = label) ↔ place label trace ≠ .out) ∧
    ∀ e ∈ s.registry.entries, e.admitted = true ↔ place e.item trace = .admitted := by
  have hregistered : ∀ label, (∃ e ∈ s.registry.entries, e.item = label) ↔ place label trace ≠ .out := by
    intro label
    rw [← h.held, Registry.book_held, hcoherent.find_eq_some_iff]
    constructor
    · rintro ⟨e, he, rfl⟩
      exact ⟨e, he, (h.owned e.id e.item (hcoherent.find_eq_some_iff.2 ⟨e, he, rfl, rfl⟩)).symm, rfl⟩
    · rintro ⟨e, he, -, hitem⟩
      exact ⟨e, he, hitem⟩
  refine ⟨hregistered, fun e he => ?_⟩
  have hsingle := single_of_owned hcoherent h.owned
  have hin := (hregistered e.item).1 ⟨e, he, rfl⟩
  have hwaits : e.admitted = false ↔ ∃ n, place e.item trace = .waiting n := by
    rw [← h.line, Registry.book_line, hcoherent.mem_line]
    constructor
    · exact fun ha => ⟨e, he, rfl, ha⟩
    · rintro ⟨x, hx, hitem, ha⟩
      rwa [hcoherent.eq_of_id_eq he hx (hsingle e he x hx hitem.symm)]
  cases hp : place e.item trace with
  | out => exact absurd hp hin
  | waiting n => simp [hwaits.2 ⟨n, hp⟩]
  | admitted => simpa [hp] using hwaits

theorem Run.standing (h : Run trace s) : Standing trace s := by
  obtain ⟨hcoherent, hall⟩ := h.kept
  obtain ⟨own, hown⟩ := exists_agrees s.ids
  have hkept := hall own hown
  have hplaced := hkept.placed
  have hsingle := single_of_owned hcoherent hplaced.owned
  obtain ⟨hregistered, hadmitted⟩ := hplaced.entries hcoherent
  obtain ⟨hids, hmem, hlabels⟩ := listing hcoherent
  exact {
    kept := ⟨own, hown, hkept⟩
    unique := hcoherent.ascending
    waits := fun label => hcoherent.mem_line
    once := hplaced.nodup
    ordered := hplaced.ordered
    registered := hregistered
    admitted := hadmitted
    pendingCount := hcoherent.length_line.symm
    size := hcoherent.size_eq.trans (Nat.add_comm ..)
    active := hcoherent.counted
    first := congrArg Answer.label hcoherent.waiting_admitNext.1
    listed := ⟨_, _, rfl, hids, hlabels, hmem⟩
    unaltered := unaltered hcoherent
    departed := by
      rintro later earlier label id rfl hno
      exact hkept.not_admitted (by simp [place]) hno
    direct := ⟨hcoherent.direct_addGiven, hcoherent.direct_admitNext, hcoherent.direct_remove hsingle⟩ }

def play (steps : List Step) : Trace × State :=
  steps.foldl (fun p step => ((step, (perform step p.2).1) :: p.1, (perform step p.2).2)) ([], {})

theorem run_play (steps : List Step) : Run (play steps).1 (play steps).2 := by
  induction steps using List.reverseRecOn with
  | nil => exact .start
  | append_singleton steps step ih =>
    rw [play, List.foldl_append]
    exact ih.step step

/-- After any calls a register stands like a map from ids to items with a line of those that wait. -/
theorem standing_play (steps : List Step) : Standing (play steps).1 (play steps).2 := (run_play steps).standing

/-- Taken out of the middle of the line and taken in again, an item waits at its end. -/
example : (play [.add (some [97]) 1, .add (some [98]) 2, .add (some [99]) 3, .remove 2, .add (some [98]) 2, .admitNext,
    .add none 4, .remove 9]).2.registry.line = [[99], [98]] := by decide

end Multiplex.Scenario.Register

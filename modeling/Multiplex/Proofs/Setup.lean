import Multiplex.Proofs.Sinks

/-! Setups that cannot be followed. An unknown level is noticed before anything is touched, and all goes on as before.
A file that cannot be opened is noticed when the file before it is closed and threshold and console are set, and that
stays so: nothing reaches a file any more until one is opened. -/
namespace Multiplex.Log.Logger

open Bytes Operation

variable {g g' : Logger} {s : Setup} {found : Option Bytes} {fault : Fault}

def unopened (level : Level) (console : Bool) (g : Logger) : Logger :=
  ({ g with level, console } : Logger).reopen none

theorem applyAt_cases (h : g.applyAt s found = (some fault, g')) :
    (Level.ofName s.level = none ∧ fault = ⟨.configInvalidLogLevel, ascii "Invalid log level: " ++ s.level⟩ ∧ g' = g) ∨
    ∃ level, Level.ofName s.level = some level ∧ s.file ≠ [] ∧ found = none ∧
      fault = ⟨.fileNotFound, ascii "Cannot open log file: " ++ s.file⟩ ∧ g' = g.unopened level s.console := by
  cases hlevel : Level.ofName s.level with
  | none =>
    rw [applyAt_of_unnamed hlevel, Prod.mk.injEq, Option.some.injEq] at h
    exact .inl ⟨rfl, h.1.symm, h.2.symm⟩
  | some level =>
    rw [applyAt_of_named hlevel] at h
    cases hfile : s.file with
    | nil =>
      rw [hfile] at h
      cases h
    | cons b file =>
      rw [hfile] at h
      cases found with
      | some name => cases h
      | none =>
        cases h
        exact .inr ⟨level, rfl, List.cons_ne_nil _ _, rfl, rfl, rfl⟩

theorem disk_run_of_closed {ops : List Operation} (hsink : g.sink = none)
    (hops : ∀ op ∈ ops, op.opened = none) : (g.run ops).disk = g.disk := by
  induction ops generalizing g with
  | nil => rfl
  | cons op ops ih =>
    obtain ⟨hop, hrest⟩ := List.forall_mem_cons.1 hops
    have hdoes := does_perform g op
    have hclosed : (g.perform op).sink = none := by
      rw [hdoes.sink]
      cases hnew : op.newSink with
      | none => exact hsink
      | some sink =>
        cases sink with
        | none => rfl
        | some name => exact absurd (hop.symm.trans (opened_eq_some_iff.2 hnew)) nofun
    exact (ih hclosed hrest).trans (hdoes.disk_of_closed hclosed hsink)

/-- A setup that cannot be followed leaves level, console and open file as they were exactly if its level has no name,
or it asks for the level and the console that are set and no file was open. Otherwise threshold and console are those of
the setup, the file that was open is closed, and what is logged after that reaches no file until one is opened. -/
theorem apply_fault (h : g.applyAt s found = (some fault, g')) :
    (g'.level = g.level ∧ g'.console = g.console ∧ g'.sink = g.sink ↔
      Level.ofName s.level = none ∨
        Level.ofName s.level = some g.level ∧ s.console = g.console ∧ g.sink = none) ∧
    (Level.ofName s.level = none → ∀ ops, g'.run ops = g.run ops) ∧
    (Level.ofName s.level ≠ none → found = none ∧ g'.sink = none ∧ Level.ofName s.level = some g'.level ∧
      g'.console = s.console ∧ g'.printed = g.printed ∧
      ∀ ops : List Operation, (∀ op ∈ ops, op.opened = none) → (g'.run ops).disk = g.disk) := by
  rcases applyAt_cases h with ⟨hlevel, -, rfl⟩ | ⟨level, hlevel, -, hfound, -, rfl⟩
  · exact ⟨iff_of_true ⟨rfl, rfl, rfl⟩ (.inl hlevel), fun _ _ => rfl, fun hne => absurd hlevel hne⟩
  · have hkept : (g.unopened level s.console).level = g.level ∧ (g.unopened level s.console).console = g.console ∧
        (g.unopened level s.console).sink = g.sink ↔ level = g.level ∧ s.console = g.console ∧ g.sink = none :=
      and_congr_right fun _ => and_congr_right fun _ => eq_comm
    refine ⟨?_, fun hnone => absurd (hlevel.symm.trans hnone) nofun, fun _ => ?_⟩
    · rw [hkept, hlevel, Option.some.injEq]
      exact (or_iff_right nofun).symm
    · exact ⟨hfound, rfl, hlevel, rfl, rfl, fun ops hops => disk_run_of_closed rfl hops⟩

/-- A file in a directory that is not there, while another one is open. -/
theorem apply_fault_unopened :
    let g := (start {}).run [.init .info (ascii "a.log") true (some (ascii "a.log"))]
    let s : Setup := { level := ascii "ERROR", file := ascii "/nonexistent_dir/b.log", console := false }
    let later : List Operation := [.log .error none (ascii "gone"), .setLevel .info, .flush]
    (g.apply s).1 = some ⟨.fileNotFound, ascii "Cannot open log file: /nonexistent_dir/b.log"⟩ ∧
      (g.apply s).2.sink = none ∧ (g.apply s).2.console = false ∧ ((g.apply s).2.run later).disk = g.disk := by
  intro g s later
  have hfound : Disk.locate s.file = none := by decide
  have hfault : g.applyAt s none =
      (some ⟨.fileNotFound, ascii "Cannot open log file: /nonexistent_dir/b.log"⟩, (g.apply s).2) := by
    rw [apply, hfound]
    decide
  obtain ⟨-, -, hleft⟩ := apply_fault hfault
  obtain ⟨-, hsink, -, hconsole, -, hlost⟩ := hleft (by decide)
  refine ⟨?_, hsink, hconsole, hlost later (by decide)⟩
  rw [apply, hfound, hfault]

/-- The setup fails, and yet the threshold has risen, the console is off and the file that was open gets no more
lines. -/
theorem setup_half_followed :
    let g := (start {}).run [.init .info (ascii "a.log") true (some (ascii "a.log"))]
    let s : Setup := { level := ascii "ERROR", file := ascii "/nonexistent_dir/b.log", console := false }
    let l := lineOf .error (some (ascii "M")) (ascii "lost")
    (g.apply s).1 ≠ none ∧
      (g.level = .info ∧ g.console = true ∧ g.sink = some (ascii "a.log")) ∧
      ((g.apply s).2.level = .error ∧ (g.apply s).2.console = false ∧ (g.apply s).2.sink = none) ∧
      (g.log l).disk.lines (ascii "a.log") = some [l] ∧ (g.log l).printed.errors = [l] ∧
      ((g.apply s).2.log l).disk.lines (ascii "a.log") = some [] ∧ ((g.apply s).2.log l).printed.errors = [] := by
  decide +kernel

end Multiplex.Log.Logger

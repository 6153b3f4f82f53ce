/-
  Printing: what running files leaves on the standard output.

  1. **Spec** (`lines`) — every printed segment, each with a line feed behind it.
  2. **Program** (`shown`) — the segments of a run are joined with line feeds between them, and the
     joined text is printed with one more behind it unless it is empty.  It is empty for a run that
     printed nothing, and also for one that printed a single empty segment: only there is `shown`
     not `lines` (`joinOutput_eq_empty_iff`).
  3. **Bounds** (`Session.Ends`) — a run that ends does so in the same way under every larger bound
     on its steps, so all the runs of some files end under one bound.
  4. **The result (`run_prints`)** — the exit of a command that runs files, from the ends of the
     runs alone.
-/
import Scriptlet.Cli
import Scriptlet.Proofs.Eval.Limits
import Scriptlet.Proofs.Session.History

namespace Scriptlet

/-! ## Segments and lines -/

/-- The segments, each on a line of its own. -/
def lines (segments : List String) : String := String.join (segments.map (· ++ "\n"))

/-- What is printed of the segments of a run. -/
def shown (segments : List String) : String := if segments = [""] then "" else lines segments

variable {segments : List String}

/-- A line feed behind the joined segments ends the last line. -/
theorem joinOutput_append (h : segments ≠ []) : joinOutput segments ++ "\n" = lines segments := by
  unfold joinOutput lines
  induction segments with
  | nil => exact absurd rfl h
  | cons s rest ih =>
    rw [List.map_cons, String.join_cons]
    cases rest with
    | nil => rw [String.intercalate_singleton, List.map_nil, String.join_nil, String.append_empty]
    | cons t rest =>
      rw [String.intercalate_cons_cons, String.append_assoc, ih (List.cons_ne_nil t rest)]

/-- Two or more segments have a line feed between them. -/
theorem joinOutput_eq_empty_iff : joinOutput segments = "" ↔ segments = [] ∨ segments = [""] := by
  unfold joinOutput
  match segments with
  | [] => simp
  | [s] => simp
  | s :: t :: rest => simp [String.intercalate_cons_cons]

theorem shown_eq (segments : List String) : shown segments =
    if joinOutput segments = "" then "" else joinOutput segments ++ "\n" := by
  unfold shown
  by_cases hempty : joinOutput segments = ""
  · rw [if_pos hempty]
    rcases joinOutput_eq_empty_iff.mp hempty with rfl | rfl <;> rfl
  · rw [if_neg hempty]
    obtain ⟨hnil, hlone⟩ := not_or.mp (mt joinOutput_eq_empty_iff.mpr hempty)
    rw [if_neg hlone, joinOutput_append hnil]

theorem length_shown_le (segments : List String) :
    (shown segments).length ≤ (lines segments).length := by
  unfold shown
  split
  · exact Nat.zero_le _
  · exact Nat.le_refl _

/-- A lone empty segment loses its line feed, and nothing else that is printed makes up for it. -/
theorem length_join_shown (outputs : List (List String)) :
    (String.join (outputs.map shown)).length + outputs.count [""]
      ≤ (String.join (outputs.map lines)).length := by
  induction outputs with
  | nil => exact Nat.le_refl _
  | cons segments rest ih =>
    simp only [List.map_cons, String.join_cons, String.length_append, List.count_cons]
    by_cases hlone : segments = [""]
    · subst hlone
      have hlost : (shown [""]).length + 1 = (lines [""]).length := by decide +kernel
      rw [if_pos (beq_self_eq_true _)]
      omega
    · have hle := length_shown_le segments
      rw [if_neg (mt beq_iff_eq.mp hlone)]
      omega

theorem join_shown_eq_iff (outputs : List (List String)) :
    String.join (outputs.map shown) = String.join (outputs.map lines) ↔ [""] ∉ outputs := by
  constructor
  · intro heq hmem
    have hlost := length_join_shown outputs
    have hcount := List.count_pos_iff.mpr hmem
    rw [heq] at hlost
    omega
  · intro hnone
    refine congrArg String.join (List.map_congr_left fun segments hsegments => ?_)
    exact if_neg fun hlone : segments = [""] => hnone (hlone ▸ hsegments)

/-! ## Runs that end -/

namespace Session

/-- A run of the source in a session of its own ends like this. -/
def Ends (source : String) (r : Ran) : Prop := ∃ fuel, (new source).run fuel = some r

variable {source : String} {r : Ran} {fuel fuel' : Nat}

/-- **A larger bound on steps changes nothing** in a run that ends. -/
theorem run_of_le {s : Session} (h : s.run fuel = some r) (hfuel : fuel ≤ fuel') :
    s.run fuel' = some r := by
  unfold run at h ⊢
  -- without a tree there is nothing to run
  cases hparse : parseSource s.source with
  | error e =>
    rw [hparse] at h
    exact h
  | ok p =>
    rw [hparse] at h
    dsimp only at h ⊢
    cases hrun : Machine.run { limits := s.limits } fuel p Machine.initial with
    | mk outcome m =>
      rw [hrun] at h
      -- the run ended, so it had steps enough
      have hend : outcome ≠ .outOfFuel := by
        rintro rfl
        exact nomatch h
      rw [Machine.run_of_le hrun hend hfuel]
      exact h

end Session

/-! ## Files -/

namespace Cli

open Session

variable {read : String → Except ReadFault String} {fuel : Nat} {path content : String}

/-- A file that is read, and the end of the run of its content. -/
abbrev Run := String × Ran

/-- What is noted about the run of a file. -/
def complaint (f : Run) : String :=
  match f.2.1 with
  | none => ""
  | some e => s!"{f.1}: {e.message}" ++ "\n"

/-- The exit after the runs of some files. -/
def exitAfter (r : Report) (files : List Run) : Exit where
  stdout := r.stdout ++ String.join (files.map fun f => shown f.2.2.output)
  stderr := r.stderr ++ String.join (files.map complaint)
  code := if r.failed || files.any (fun f => f.2.1.isSome) then 1 else 0

/-- **One file.**  Its output is shown, and its failure is noted. -/
theorem apply_run {ran : Ran} (h : (new content).run fuel = some ran) (r : Report) :
    Command.run.apply fuel path content r =
      some ⟨r.stdout ++ shown ran.2.output, r.stderr ++ complaint (path, ran),
        r.failed || ran.1.isSome⟩ := by
  obtain ⟨error, s⟩ := ran
  have hsource : runSource fuel content = some (joinOutput s.output, error) := by
    rw [runSource, h]
    rfl
  -- nothing is printed for an empty output, and a line end is added to any other
  have hprinted : (if joinOutput s.output = "" then r else r.print (joinOutput s.output ++ "\n"))
      = ⟨r.stdout ++ shown s.output, r.stderr, r.failed⟩ := by
    rw [shown_eq]
    split
    · rw [String.append_empty]
    · rfl
  show (runSource fuel content).bind _ = _
  rw [hsource, Option.bind_some]
  dsimp only
  rw [hprinted]
  -- an error is noted behind the output of its own file
  cases error with
  | none => simp [complaint]
  | some e => simp [complaint, Report.fail, Report.note, String.append_assoc]

/-- **All files**, one after the other. -/
theorem process_run (files : List Run)
    (h : ∀ f ∈ files, ∃ content, read f.1 = .ok content ∧ (new content).run fuel = some f.2)
    (r : Report) :
    process fuel "run" (files.map fun f => (f.1, read f.1)) r = some (exitAfter r files) := by
  induction files generalizing r with
  | nil => simp [process, Report.finish, exitAfter]
  | cons f rest ih =>
    obtain ⟨path, ran⟩ := f
    obtain ⟨⟨content, hread, hrun⟩, hrest⟩ := List.forall_mem_cons.mp h
    -- the command is the one that runs files
    have hname : Command.ofName? "run" = some .run := by decide
    rw [List.map_cons, hread, process, hname]
    dsimp only
    rw [apply_run hrun]
    dsimp only
    rw [ih hrest]
    unfold exitAfter
    rw [List.map_cons, List.map_cons, String.join_cons, String.join_cons, List.any_cons,
      ← Bool.or_assoc, ← String.append_assoc, ← String.append_assoc]

/-- Runs that end do so under one bound on their steps. -/
theorem exists_bound (files : List Run)
    (h : ∀ f ∈ files, ∃ content, read f.1 = .ok content ∧ Ends content f.2) :
    ∃ enough, ∀ fuel, enough ≤ fuel →
      ∀ f ∈ files, ∃ content, read f.1 = .ok content ∧ (new content).run fuel = some f.2 := by
  induction files with
  | nil => exact ⟨0, fun _ _ => List.forall_mem_nil _⟩
  | cons f rest ih =>
    obtain ⟨⟨content, hread, fuel, hrun⟩, hrest⟩ := List.forall_mem_cons.mp h
    obtain ⟨enough, henough⟩ := ih hrest
    refine ⟨max fuel enough, fun fuel' hfuel => List.forall_mem_cons.mpr ⟨?_, ?_⟩⟩
    · exact ⟨content, hread, run_of_le hrun (Nat.le_trans (Nat.le_max_left ..) hfuel)⟩
    · exact henough fuel' (Nat.le_trans (Nat.le_max_right ..) hfuel)

/-- **What running files prints.**  If all of the files can be read and their runs end, then so does
    the command, whatever larger bound on steps it is given.  Its output is that of one file after
    the other, each segment on a line of its own, also those printed before a failure; only a run
    that printed one empty segment and no other leaves no line.  The exit code is 1 if a run failed,
    and 0 otherwise. -/
theorem run_prints {files : List Run} (hfiles : files ≠ [])
    (hruns : ∀ f ∈ files, ∃ content, read f.1 = .ok content ∧ Ends content f.2) :
    ∃ exit, (∃ enough, ∀ fuel, enough ≤ fuel →
        Cli.run fuel read ("run" :: files.map Prod.fst) = some exit) ∧
      exit.stdout = String.join (files.map fun f => shown f.2.2.output) ∧
      (exit.stdout = String.join (files.map fun f => lines f.2.2.output) ↔
        ∀ f ∈ files, f.2.2.output ≠ [""]) ∧
      (exit.code = 1 ↔ ∃ f ∈ files, f.2.1 ≠ none) ∧
      (exit.code = 0 ↔ ∀ f ∈ files, f.2.1 = none) := by
  obtain ⟨enough, henough⟩ := exists_bound files hruns
  have hstdout : (exitAfter {} files).stdout =
      String.join (files.map fun f => shown f.2.2.output) := String.empty_append
  refine ⟨exitAfter {} files, ⟨enough, fun fuel hfuel => ?_⟩, hstdout, ?_, ?_, ?_⟩
  · have hprocess := process_run files (henough fuel hfuel) {}
    simpa [Cli.run, hfiles, Function.comp_def] using hprocess
  · rw [hstdout]
    have hiff := join_shown_eq_iff (files.map fun f => f.2.2.output)
    simpa only [List.map_map, Function.comp_def, List.mem_map, not_exists, not_and] using hiff
  · simp [exitAfter, Option.isSome_iff_ne_none]
  · simp [exitAfter]

/-- Two scripts: an empty line and a number, and a line before a failure. -/
def twoScripts (path : String) : Except ReadFault String :=
  .ok (if path = "a" then "print(\"\")\nprint(1)" else "print(\"x\")\nprint(1 / 0)")

/-- The empty segment of the first script is a line, for there is a second one; the failure of the
    second script leaves the line before it. -/
theorem run_prints_twoScripts :
    ∃ exit, (∃ enough, ∀ fuel, enough ≤ fuel →
        Cli.run fuel twoScripts ["run", "a", "b"] = some exit) ∧
      exit.stdout = "\n1\nx\n" ∧ exit.code = 1 := by
  have hfirst : ((new "print(\"\")\nprint(1)").run 9).map (fun r => (r.1.isSome, r.2.output)) =
      some (false, ["", "1"]) := by
    decide +kernel
  have hsecond : ((new "print(\"x\")\nprint(1 / 0)").run 9).map
      (fun r => (r.1.isSome, r.2.output)) = some (true, ["x"]) := by
    decide +kernel
  obtain ⟨a, ha, hashown⟩ := Option.map_eq_some_iff.mp hfirst
  obtain ⟨b, hb, hbshown⟩ := Option.map_eq_some_iff.mp hsecond
  obtain ⟨-, haoutput⟩ := Prod.mk.inj hashown
  obtain ⟨hberror, hboutput⟩ := Prod.mk.inj hbshown
  have hruns : ∀ f ∈ [("a", a), ("b", b)], ∃ content,
      twoScripts f.1 = .ok content ∧ Ends content f.2 :=
    List.forall_mem_cons.mpr ⟨⟨_, rfl, 9, ha⟩, List.forall_mem_singleton.mpr ⟨_, rfl, 9, hb⟩⟩
  obtain ⟨exit, hrun, hstdout, -, hcode, -⟩ := run_prints (List.cons_ne_nil _ _) hruns
  refine ⟨exit, hrun, ?_, hcode.mpr ⟨("b", b), by simp, fun hnone => ?_⟩⟩
  · rw [hstdout]
    simp only [List.map_cons, List.map_nil, haoutput, hboutput]
    decide +kernel
  · rw [hnone] at hberror
    exact nomatch hberror

/-- A script that prints an empty text. -/
def emptyLine (_ : String) : Except ReadFault String := .ok "print(\"\")"

/-- **A lone empty segment is lost**: the script prints one segment, which would be an empty line,
    and the output is empty. -/
theorem run_prints_nothing : ∃ r, Ends "print(\"\")" r ∧ r.1 = none ∧ r.2.output = [""] ∧
    lines r.2.output = "\n" ∧
    ∃ stderr, Cli.run 9 emptyLine ["run", "a"] = some ⟨"", stderr, 0⟩ := by
  have hfirst : ((new "print(\"\")").run 9).map (fun r => (r.1, r.2.output)) =
      some (none, [""]) := by
    decide +kernel
  obtain ⟨r, hr, hrshown⟩ := Option.map_eq_some_iff.mp hfirst
  obtain ⟨herror, houtput⟩ := Prod.mk.inj hrshown
  refine ⟨r, ⟨9, hr⟩, herror, houtput, ?_, "", ?_⟩
  · rw [houtput]
    decide +kernel
  · decide +kernel

end Cli

end Scriptlet

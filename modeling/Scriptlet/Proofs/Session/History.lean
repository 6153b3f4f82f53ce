/-
  The history of a session: what its state says about the runs before.

  1. **Requests** (`Session.Request`) — everything that can be asked of a session, in any order; a
     run with a bound on its steps.  `Session.follow` answers one request after the other.
  2. **Fresh runs** (`Session.fresh`) — the same run in a session of its own, under the limits that
     were in force.
  3. **Summary** (`Session.summary`) — a session computed from a list of fresh runs alone: the output
     and the result of the last one, the errors of all of them.
  4. **The crux (`follow_summary`)** — one more run in a summary is the summary with one more fresh
     run, so a session is the summary of its fresh runs whatever was asked of it before.
-/
import Mathlib.Data.List.Forall2
import Scriptlet.Session

namespace Scriptlet

namespace Session

/-! ## Requests -/

/-- What a session can be asked for. -/
inductive Request where
  /-- A run, with a bound on its steps. -/
  | run (fuel : Nat)
  /-- The tokens of the source. -/
  | lex
  /-- The program that some tokens spell. -/
  | parse (tokens : List Token)
  /-- Other limits for the runs to come. -/
  | withLimits (limits : Limits)
  /-- The source text. -/
  | source

/-- The session after a request; nothing when a run reaches the bound on its steps. -/
def answer (s : Session) : Request → Option Session
  | .run fuel => (s.run fuel).map Prod.snd
  | .withLimits limits => some (s.withLimits limits)
  -- these look at the session and leave it as it is
  | .lex | .parse _ | .source => some s

/-- The session after several requests. -/
def follow (s : Session) : List Request → Option Session
  | [] => some s
  | request :: rest => (s.answer request).bind fun s => s.follow rest

/-! ## Fresh runs -/

/-- How a run ended, and the session it left. -/
abbrev Ran := Option Error × Session

/-- A run of the source in a session of its own. -/
def fresh (source : String) (conditions : Limits × Nat) : Option Ran :=
  ((new source).withLimits conditions.1).run conditions.2

/-- For every run that is asked for, the limits in force then and its bound on steps. -/
def runs (limits : Limits) : List Request → List (Limits × Nat)
  | [] => []
  | .run fuel :: rest => (limits, fuel) :: runs limits rest
  | .withLimits limits :: rest => runs limits rest
  | _ :: rest => runs limits rest

/-- The limits in force at the end. -/
def finalLimits (limits : Limits) : List Request → Limits
  | [] => limits
  | .withLimits limits :: rest => finalLimits limits rest
  | _ :: rest => finalLimits limits rest

/-- The value of the last run that succeeded. -/
def lastSuccess (history : List Ran) : Option Value :=
  ((history.filter fun r => r.1.isNone).getLast?).bind fun r => r.2.result

/-! ## Summary -/

/-- The session that fresh runs add up to. -/
def summary (source : String) (limits : Limits) (history : List Ran) : Session where
  source := source
  limits := limits
  output := (history.getLast?.map fun r => r.2.output).getD []
  errors := history.filterMap Prod.fst
  program := if history.isEmpty then none else (parseSource source).toOption
  result := history.getLast?.bind fun r => r.2.result

/-- The session after one more run, which ended like this in a session of its own. -/
def absorb (s : Session) (r : Ran) : Session :=
  { s with
    output := r.2.output
    errors := s.errors ++ r.1.toList
    program := r.2.program <|> s.program
    result := r.2.result }

variable {source : String} {limits : Limits} {conditions : Limits × Nat} {r : Ran}

/-- A fresh run keeps the tree of the source, if there is one, and has a value exactly if it did not
    fail. -/
theorem fresh_spec (h : fresh source conditions = some r) :
    r.2.program = (parseSource source).toOption ∧ r.2.result.isSome = r.1.isNone := by
  unfold fresh run at h
  show r.2.program = (parseSource source).toOption ∧ _
  have hsource : ((new source).withLimits conditions.1).source = source := rfl
  rw [hsource] at h
  cases hparse : parseSource source with
  -- the source has no tree
  | error e =>
    rw [hparse] at h
    cases h
    exact ⟨rfl, rfl⟩
  | ok p =>
    rw [hparse] at h
    dsimp only at h
    split at h
    · -- the run went on for too long
      exact nomatch h
    · -- it came to a value
      cases h
      exact ⟨rfl, rfl⟩
    · -- it failed
      cases h
      exact ⟨rfl, rfl⟩

/-- **A run looks at the source and the limits only**: it goes as in a session of its own. -/
theorem run_eq_absorb (s : Session) (fuel : Nat) :
    s.run fuel = (fresh s.source (s.limits, fuel)).map fun r => (r.1, s.absorb r) := by
  unfold fresh run
  have hsource : ((new s.source).withLimits s.limits).source = s.source := rfl
  have hlimits : ((new s.source).withLimits s.limits).limits = s.limits := rfl
  rw [hsource, hlimits]
  cases hparse : parseSource s.source with
  | error e => rfl
  | ok p =>
    dsimp only
    split <;> simp [absorb, withLimits, new]

/-- One more fresh run in a summary. -/
theorem absorb_summary (history : List Ran) (h : fresh source conditions = some r) :
    (summary source limits history).absorb r = summary source limits (history ++ [r]) := by
  obtain ⟨hprogram, -⟩ := fresh_spec h
  -- a history has kept the tree already, or there is none to keep
  have hkept : (r.2.program <|> (summary source limits history).program) =
      (parseSource source).toOption := by
    rw [hprogram]
    unfold summary
    cases (parseSource source).toOption with
    | none => cases history <;> rfl
    | some p => rfl
  have hmore : (history ++ [r]).isEmpty = false := by simp
  unfold absorb
  rw [hkept]
  unfold summary
  rw [hmore, List.getLast?_concat, List.filterMap_append]
  cases hr : r.1 <;> simp [hr]

/-! ## A session and its history -/

/-- The runs asked for, in sessions of their own, end like this. -/
def Ended (source : String) (limits : Limits) (requests : List Request) (history : List Ran) :
    Prop :=
  List.Forall₂ (fun conditions r => fresh source conditions = some r) (runs limits requests) history

/-- **What is asked of a summary** adds the fresh runs asked for to it; there is an answer to all of
    it exactly if every one of these runs ends. -/
theorem follow_summary (requests : List Request) (limits : Limits) (history : List Ran)
    (s : Session) : (summary source limits history).follow requests = some s ↔
      ∃ more, Ended source limits requests more ∧
        s = summary source (finalLimits limits requests) (history ++ more) := by
  induction requests generalizing limits history with
  | nil =>
    unfold Ended runs
    simp [follow, finalLimits, eq_comm]
  | cons request rest ih =>
    cases request with
    -- other requests leave the history as it is
    | withLimits limits' => exact ih limits' history
    | lex | parse tokens | source => exact ih limits history
    -- a run adds what a fresh run gives under the limits of the moment
    | run fuel =>
      have hrun : (summary source limits history).run fuel =
          (fresh source (limits, fuel)).map fun r =>
            (r.1, (summary source limits history).absorb r) := run_eq_absorb _ fuel
      have happend : ∀ (r : Ran) more, history ++ [r] ++ more = history ++ r :: more := by
        intro r more
        rw [List.append_assoc, List.singleton_append]
      rw [follow, answer, hrun]
      constructor
      · -- the session answered, so the fresh run ended
        intro h
        cases hfresh : fresh source (limits, fuel) with
        | none =>
          rw [hfresh] at h
          exact nomatch h
        | some r =>
          rw [hfresh] at h
          have h : ((summary source limits history).absorb r).follow rest = some s := h
          rw [absorb_summary history hfresh, ih] at h
          obtain ⟨more, hmore, hs⟩ := h
          rw [happend] at hs
          exact ⟨r :: more, .cons hfresh hmore, hs⟩
      · -- the fresh runs ended, so the session answers
        rintro ⟨more, hended, hs⟩
        have hended : List.Forall₂ _ ((limits, fuel) :: runs limits rest) more := hended
        obtain ⟨r, more, hfresh, hmore, rfl⟩ := List.forall₂_cons_left_iff.mp hended
        rw [hfresh]
        show ((summary source limits history).absorb r).follow rest = some s
        rw [absorb_summary history hfresh, ih]
        rw [← happend] at hs
        exact ⟨more, hmore, hs⟩

/-- Every run in the history has a value exactly if it did not fail. -/
theorem Ended.spec {requests : List Request} {history : List Ran}
    (h : Ended source limits requests history) :
    ∀ r ∈ history, r.2.result.isSome = r.1.isNone := by
  unfold Ended at h
  generalize runs limits requests = all at h
  induction h with
  | nil => exact fun r hr => nomatch hr
  | cons hfresh _ ih => exact List.forall_mem_cons.mpr ⟨(fresh_spec hfresh).2, ih⟩

/-! ## The last success -/

section LastSuccess

variable {history : List Ran} (h : ∀ r ∈ history, r.2.result.isSome = r.1.isNone)

include h

theorem lastSuccess_eq_none_iff : lastSuccess history = none ↔ ∀ r ∈ history, r.1 ≠ none := by
  unfold lastSuccess
  constructor
  · -- a run that came to a value would have been the last such run, or one before it
    intro hnone r hr hsuccess
    have hmem : r ∈ history.filter fun r => r.1.isNone := by simp [hr, hsuccess]
    obtain ⟨last, hlast⟩ : ∃ last, (history.filter fun r => r.1.isNone).getLast? = some last :=
      ⟨_, List.getLast?_eq_some_getLast (List.ne_nil_of_mem hmem)⟩
    obtain ⟨hlastmem, hlastok⟩ := List.mem_filter.mp (List.mem_of_getLast? hlast)
    rw [hlast, Option.bind_some] at hnone
    have hvalue := h last hlastmem
    rw [hlastok, hnone] at hvalue
    exact nomatch hvalue
  · -- without one there is no last one
    intro hfailed
    have hempty : history.filter (fun r => r.1.isNone) = [] := by
      refine List.filter_eq_nil_iff.mpr fun r hr hsuccess => ?_
      exact hfailed r hr (Option.isNone_iff_eq_none.mp hsuccess)
    rw [hempty]
    rfl

/-- The latest run has the value of the last success exactly if it succeeded itself, or no run did. -/
theorem result_eq_lastSuccess_iff :
    (history.getLast?.bind fun r => r.2.result) = lastSuccess history ↔
      (∀ r ∈ history.getLast?, r.1 = none) ∨ ∀ r ∈ history, r.1 ≠ none := by
  rcases List.eq_nil_or_concat history with rfl | ⟨before, last, rfl⟩
  · exact iff_of_true rfl (.inr fun _ hr => nomatch hr)
  rw [List.concat_eq_append] at *
  rw [List.getLast?_concat, Option.bind_some]
  cases herror : last.1 with
  | none =>
    refine iff_of_true ?_ (.inl ?_)
    · simp [lastSuccess, herror]
    · rintro r ⟨⟩
      exact herror
  | some e =>
    -- a run that failed has no value, so it has that of the last success if there is none
    have hvalue : last.2.result = none := by
      have hlast := h last (List.mem_append_right _ (List.mem_singleton_self _))
      rw [herror] at hlast
      exact Option.not_isSome_iff_eq_none.mp (by rw [hlast]; simp)
    rw [hvalue, eq_comm, lastSuccess_eq_none_iff h]
    constructor
    · exact .inr
    · rintro (hsuccess | hfailed)
      · have hnone := hsuccess last rfl
        rw [herror] at hnone
        exact nomatch hnone
      · exact hfailed

end LastSuccess

/-- **The history of a session.**  Whatever was asked of a session, its output is that of the latest
    run, its errors are those of all runs that failed, oldest first, and its program is that of the
    source once a run got past parsing; each run goes as it would in a session of its own under the
    limits then in force.  The result is that of the latest run, so it is the value of the last
    success only if no run has failed since. -/
theorem history_of_follow {requests : List Request} {s : Session}
    (h : (new source).follow requests = some s) :
    ∃ history, Ended source {} requests history ∧
      s.output = (history.getLast?.map fun r => r.2.output).getD [] ∧
      s.errors = history.filterMap Prod.fst ∧
      (∀ p, s.program = some p ↔ history ≠ [] ∧ parseSource source = .ok p) ∧
      s.result = (history.getLast?.bind fun r => r.2.result) ∧
      (s.result = lastSuccess history ↔
        (∀ r ∈ history.getLast?, r.1 = none) ∨ ∀ r ∈ history, r.1 ≠ none) := by
  have hstart : new source = summary source {} [] := rfl
  rw [hstart, follow_summary] at h
  obtain ⟨history, hended, rfl⟩ := h
  rw [List.nil_append]
  refine ⟨history, hended, rfl, rfl, fun p => ?_, rfl, result_eq_lastSuccess_iff hended.spec⟩
  unfold summary
  cases history with
  | nil => simp
  | cons r rest => cases parseSource source <;> simp [Except.toOption]

/-- Two runs with a look at the tokens between them; the second may go one level deep only. -/
def tightening : List Request := [.run 3, .lex, .withLimits { depth := 1 }, .run 3]

/-- The second run cannot even look at the 7 it should print: no output is left, and its error is the
    only one. -/
theorem history_of_follow_tightening : ∃ s history,
    (new "print(7)").follow tightening = some s ∧ Ended "print(7)" {} tightening history ∧
      s.errors = history.filterMap Prod.fst ∧ s.output = [] ∧
      s.errors.map (fun e => (e.message, e.span)) =
        [("evaluation nested deeper than 1 levels at line 1, column 7", ⟨1, 7⟩)] := by
  have hrun : ((new "print(7)").follow tightening).map
      (fun s => (s.output, s.errors.map fun e => (e.message, e.span))) =
        some ([], [("evaluation nested deeper than 1 levels at line 1, column 7", ⟨1, 7⟩)]) := by
    decide +kernel
  obtain ⟨s, hs, hshown⟩ := Option.map_eq_some_iff.mp hrun
  obtain ⟨houtput, herrors⟩ := Prod.mk.inj hshown
  obtain ⟨history, hended, -, hall, -⟩ := history_of_follow hs
  exact ⟨s, history, hs, hended, hall, houtput, herrors⟩

/-- **A failed run forgets the value of the success before it**: the source `1` is run twice, the
    second time with no level of depth allowed. -/
theorem result_ne_lastSuccess : ∃ s history,
    (new "1").follow [.run 1, .withLimits { depth := 0 }, .run 1] = some s ∧
      Ended "1" {} [.run 1, .withLimits { depth := 0 }, .run 1] history ∧
      lastSuccess history = some (.integer 1) ∧ s.result = none := by
  have hfirst : (fresh "1" ({}, 1)).map (fun r => (r.1, r.2.result)) =
      some (none, some (.integer 1)) := by
    decide +kernel
  have hsecond : (fresh "1" ({ depth := 0 }, 1)).map (fun r => (r.1.isSome, r.2.result)) =
      some (true, none) := by
    decide +kernel
  obtain ⟨r, hr, hrvalue⟩ := Option.map_eq_some_iff.mp hfirst
  obtain ⟨r', hr', hrvalue'⟩ := Option.map_eq_some_iff.mp hsecond
  obtain ⟨herror, hvalue⟩ := Prod.mk.inj hrvalue
  obtain ⟨herror', hvalue'⟩ := Prod.mk.inj hrvalue'
  -- both runs of the session are fresh runs, under their own limits
  have hended : Ended "1" {} [.run 1, .withLimits { depth := 0 }, .run 1] [r, r'] :=
    .cons hr (.cons hr' .nil)
  refine ⟨summary "1" { depth := 0 } [r, r'], [r, r'], ?_, hended, ?_, hvalue'⟩
  · exact (follow_summary _ {} [] _).mpr ⟨[r, r'], hended, rfl⟩
  · -- the second one failed, so the first one is the last success
    have hfailed : r'.1.isNone = false := by
      cases hr'1 : r'.1 with
      | none => rw [hr'1] at herror'; exact nomatch herror'
      | some e => rfl
    simp [lastSuccess, herror, hfailed, hvalue]

end Session

end Scriptlet

/-!
# Runs of a case map

A case map moves long runs of letters by one offset: every letter of a row, or every second one
where capitals and small letters alternate. A **case run** is such a stretch, and the tables of the
upper and lower case maps are lists of runs.

A property of a whole table is thus a property of its runs, and can be checked run by run: what a
run covers and where it goes are given by its two ends, its step and its offset.
-/

namespace FilterQuery.Text

/-- A stretch of code points `first, first + step, …, last` that a case map moves by `offset`. -/
structure CaseRun where
  first : Nat
  last : Nat
  step : Nat
  offset : Int

namespace CaseRun

/-- Whether the run moves the code point `n`. -/
def covers (run : CaseRun) (n : Nat) : Bool :=
  run.first ≤ n && n ≤ run.last && (n - run.first) % run.step == 0

/-- The code point to which the first run that covers `n` moves it. -/
def target? (runs : List CaseRun) (n : Nat) : Option Nat :=
  (runs.find? (·.covers n)).map fun run => ((n : Int) + run.offset).toNat

end CaseRun

end FilterQuery.Text

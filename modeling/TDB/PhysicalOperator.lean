import TDB.Value

namespace TDB

/-- What one call of `next` gives: `SUCCESS` with a current tuple, or no tuple. -/
inductive Response (R : Type) where
  | tuple (r : R)
  | failed (f : Failure)
  deriving DecidableEq, Repr

/-- The calls of an operator's `next` that are still to come: its rows, and then the way it ends,
which is `RECORD_EOF` if nothing goes wrong. -/
structure Responses (R : Type) where
  rows : List R
  ending : Failure := .code .recordEof
  deriving DecidableEq, Repr

/-- `next` is called until it gives no tuple, at most `fuel` times. -/
def fetchAll {S R : Type} (next : S → Response R × S) : ℕ → S → List R × Option Failure
  | 0, _ => ([], none)
  | fuel + 1, s =>
    match next s with
    | (.tuple r, s) => let (rows, ending) := fetchAll next fuel s; (r :: rows, ending)
    | (.failed f, _) => ([], some f)

end TDB
